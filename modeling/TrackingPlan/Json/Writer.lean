import TrackingPlan.Json.Value
import TrackingPlan.Number.Numeral
import TrackingPlan.Text.Quoted
/-!
# Writer — values as JSON texts

A text is written in ASCII: quote and backslash after a backslash, the control characters that have a short escape by
it, and everything else outside the printable ASCII characters by the codes of its UTF-16 units.  `compact`
writes one line with a blank after each comma and colon; `indented` writes a member a line, two blanks a level.

Whole numbers of any length and values of any depth are written; `Json.maxDigits` is a limit on reading alone.
-/
namespace TrackingPlan
namespace Json

def unitEscape (n : Nat) : List Char := '\\' :: 'u' :: Quoted.hexDigits 4 n

def escapeChar (c : Char) : List Char :=
  if c = '"' ∨ c = '\\' then ['\\', c]
  else if c = '\n' then ['\\', 'n']
  else if c = '\r' then ['\\', 'r']
  else if c = '\t' then ['\\', 't']
  else if c.toNat = 8 then ['\\', 'b']
  else if c.toNat = 12 then ['\\', 'f']
  else if 0x20 ≤ c.toNat ∧ c.toNat < 0x7f then [c]
  else if c.toNat < 0x10000 then unitEscape c.toNat
  else
    let n := c.toNat - 0x10000
    unitEscape (0xd800 + n / 0x400) ++ unitEscape (0xdc00 + n % 0x400)

def textChars (s : String) : List Char := '"' :: (s.toList.flatMap escapeChar ++ ['"'])

/-- The text of a value without members. -/
def scalarChars : Json → List Char
  | .null => "null".toList
  | .bool true => "true".toList
  | .bool false => "false".toList
  | .int n => Numeral.intDigits n
  | .float x => Numeral.double .json x
  | .str s => textChars s
  | .arr _ => ['[', ']']
  | .obj _ => ['\x7b', '\x7d']

/-! ## On one line -/

mutual
def compactChars : Json → List Char
  | .arr xs => '[' :: (List.intercalate [',', ' '] (compactItems xs) ++ [']'])
  | .obj ms => '\x7b' :: (List.intercalate [',', ' '] (compactMembers ms) ++ ['\x7d'])
  | v => scalarChars v
def compactItems : List Json → List (List Char)
  | [] => []
  | x :: xs => compactChars x :: compactItems xs
def compactMembers : List (String × Json) → List (List Char)
  | [] => []
  | (k, v) :: ms => (textChars k ++ ':' :: ' ' :: compactChars v) :: compactMembers ms
end

def compact (v : Json) : String := String.ofList (compactChars v)

/-! ## A member a line -/

def newline (level : Nat) : List Char := '\n' :: List.replicate (2 * level) ' '

/-- Lines between brackets, the brackets alone when there are none. -/
def block (opening closing : Char) (level : Nat) (parts : List (List Char)) : List Char :=
  if parts.isEmpty then [opening, closing]
  else opening :: (newline (level + 1) ++ List.intercalate (',' :: newline (level + 1)) parts ++ newline level ++
    [closing])

mutual
def indentedChars (level : Nat) : Json → List Char
  | .arr xs => block '[' ']' level (indentedItems (level + 1) xs)
  | .obj ms => block '\x7b' '\x7d' level (indentedMembers (level + 1) ms)
  | v => scalarChars v
def indentedItems (level : Nat) : List Json → List (List Char)
  | [] => []
  | x :: xs => indentedChars level x :: indentedItems level xs
def indentedMembers (level : Nat) : List (String × Json) → List (List Char)
  | [] => []
  | (k, v) :: ms => (textChars k ++ ':' :: ' ' :: indentedChars level v) :: indentedMembers level ms
end

def indented (v : Json) : String := String.ofList (indentedChars 0 v)

end Json
end TrackingPlan
