import TrackingPlan.Json.Value
import TrackingPlan.Table
/-!
# Reader — values from JSON texts

The grammar is JSON's, with `NaN`, `Infinity` and `-Infinity` as numbers besides.  A number without fraction and
exponent is an `int` of up to `maxDigits` digits, any other a `float`, infinite past the range.  When an object gives a
key twice, the first place and the last value count.  A byte order mark is not white space.

The functions on nested values take a bound on their steps; each second step at the latest consumes a character, so
`read` starts from a bound that no text reaches.  How deep values lie in one another has no limit.
-/
namespace TrackingPlan
namespace Json

inductive ReadError where
  | malformed
  /-- A whole number of more digits than are converted. -/
  | numberTooLong
deriving DecidableEq

def maxDigits : Nat := 4300

abbrev Read (α : Type) : Type := Except ReadError (α × List Char)

def isBlank (c : Char) : Bool := c = ' ' || c = '\t' || c = '\n' || c = '\r'

def skipBlank (cs : List Char) : List Char := cs.dropWhile isBlank

/-! ## Texts -/

def hexValue? (c : Char) : Option Nat :=
  if c.isDigit then some (c.toNat - 48)
  else if 'a' ≤ c ∧ c ≤ 'f' then some (c.toNat - 87)
  else if 'A' ≤ c ∧ c ≤ 'F' then some (c.toNat - 55)
  else none

def hexUnit? (a b c d : Char) : Option Nat := do
  return (((← hexValue? a) * 16 + (← hexValue? b)) * 16 + (← hexValue? c)) * 16 + (← hexValue? d)

def shortEscape? : Char → Option Char
  | '"' => some '"'
  | '\\' => some '\\'
  | '/' => some '/'
  | 'b' => some '\x08'
  | 'f' => some '\x0c'
  | 'n' => some '\n'
  | 'r' => some '\r'
  | 't' => some '\t'
  | _ => none

/-- Two units of a pair as one code point. -/
def joinUnits (high low : Nat) : Nat := 0x10000 + (high - 0xd800) * 0x400 + (low - 0xdc00)

def isHighUnit (n : Nat) : Bool := 0xd800 ≤ n && n < 0xdc00
def isLowUnit (n : Nat) : Bool := 0xdc00 ≤ n && n < 0xe000

/-- The character of a single unit; half a pair has none and is replaced. -/
def unitChar (n : Nat) : Char := if isHighUnit n || isLowUnit n then '\ufffd' else Char.ofNat n

/-- Reads on to the closing quote; `read` holds the characters so far, last first. -/
def readText (read : List Char) : List Char → Read String
  | [] => .error .malformed
  | '"' :: cs => .ok (String.ofList read.reverse, cs)
  | '\\' :: 'u' :: a :: b :: c :: d :: '\\' :: 'u' :: e :: f :: g :: h :: cs =>
    match hexUnit? a b c d with
    | none => .error .malformed
    | some high => match hexUnit? e f g h with
      | none => .error .malformed
      | some low =>
        if isHighUnit high && isLowUnit low then readText (Char.ofNat (joinUnits high low) :: read) cs
        else readText (unitChar high :: read) ('\\' :: 'u' :: e :: f :: g :: h :: cs)
  | '\\' :: 'u' :: a :: b :: c :: d :: cs =>
    match hexUnit? a b c d with
    | none => .error .malformed
    | some n => readText (unitChar n :: read) cs
  | '\\' :: c :: cs =>
    match shortEscape? c with
    | some e => readText (e :: read) cs
    | none => .error .malformed
  | c :: cs => if c.val < 0x20 then .error .malformed else readText (c :: read) cs
termination_by cs => cs.length

/-! ## Numbers -/

def digitsValue (ds : List Char) : Nat := ds.foldl (fun n d => n * 10 + (d.toNat - 48)) 0

/-- The digits after a point, when there are any. -/
def readFraction : List Char → Option (List Char × List Char)
  | '.' :: cs =>
    let ds := cs.takeWhile Char.isDigit
    if ds.isEmpty then none else some (ds, cs.dropWhile Char.isDigit)
  | _ => none

def readSign : List Char → Bool × List Char
  | '-' :: cs => (true, cs)
  | '+' :: cs => (false, cs)
  | cs => (false, cs)

def readExponent : List Char → Option (Int × List Char)
  | c :: cs =>
    if c = 'e' ∨ c = 'E' then
      let (negative, cs) := readSign cs
      let ds := cs.takeWhile Char.isDigit
      if ds.isEmpty then none
      else
        let n : Int := digitsValue ds
        some (if negative then -n else n, cs.dropWhile Char.isDigit)
    else none
  | [] => none

def readNumber (negative : Bool) (cs : List Char) : Read Json :=
  let whole := match cs with
    | '0' :: _ => ['0']
    | _ => cs.takeWhile Char.isDigit
  if whole.isEmpty then .error .malformed
  else
    let cs := cs.drop whole.length
    let fraction := readFraction cs
    let cs := (fraction.map Prod.snd).getD cs
    let exponent := readExponent cs
    let cs := (exponent.map Prod.snd).getD cs
    match fraction, exponent with
    | none, none =>
      if maxDigits < whole.length then .error .numberTooLong
      else
        let n : Int := digitsValue whole
        .ok (.int (if negative then -n else n), cs)
    | _, _ =>
      let decimals := (fraction.map Prod.fst).getD []
      let power := (exponent.map Prod.fst).getD 0
      .ok (.float (.ofDecimal negative (digitsValue (whole ++ decimals)) (power - decimals.length)), cs)

/-! ## Values -/

def readWord (word : String) (v : Json) (cs : List Char) : Read Json :=
  match word.toList.isPrefixOf? cs with
  | some rest => .ok (v, rest)
  | none => .error .malformed

mutual
def readValue : Nat → List Char → Read Json
  | 0, _ => .error .malformed
  | n + 1, cs => match cs with
    | '"' :: cs => (readText [] cs).map (fun (s, rest) => (.str s, rest))
    | '[' :: cs => match skipBlank cs with
      | ']' :: rest => .ok (.arr [], rest)
      | cs => readItems n [] cs
    | '\x7b' :: cs => match skipBlank cs with
      | '\x7d' :: rest => .ok (.obj [], rest)
      | cs => readMembers n [] cs
    | 'n' :: _ => readWord "null" .null cs
    | 't' :: _ => readWord "true" (.bool true) cs
    | 'f' :: _ => readWord "false" (.bool false) cs
    | 'N' :: _ => readWord "NaN" (.float .nan) cs
    | 'I' :: _ => readWord "Infinity" (.float (.infinity false)) cs
    | '-' :: 'I' :: _ => readWord "-Infinity" (.float (.infinity true)) cs
    | '-' :: cs => readNumber true cs
    | cs => readNumber false cs
/-- Reads on from the start of an item; `read` holds the items so far, last first. -/
def readItems : Nat → List Json → List Char → Read Json
  | 0, _, _ => .error .malformed
  | n + 1, read, cs => match readValue n cs with
    | .error e => .error e
    | .ok (v, rest) => match skipBlank rest with
      | ']' :: rest => .ok (.arr (v :: read).reverse, rest)
      | ',' :: rest => readItems n (v :: read) (skipBlank rest)
      | _ => .error .malformed
/-- Reads on from the start of a key; `read` holds the members so far. -/
def readMembers : Nat → List (String × Json) → List Char → Read Json
  | 0, _, _ => .error .malformed
  | n + 1, read, cs => match cs with
    | '"' :: cs => match readText [] cs with
      | .error e => .error e
      | .ok (k, rest) => match skipBlank rest with
        | ':' :: rest => match readValue n (skipBlank rest) with
          | .error e => .error e
          | .ok (v, rest) => match skipBlank rest with
            | '\x7d' :: rest => .ok (.obj (Table.set k v read), rest)
            | ',' :: rest => readMembers n (Table.set k v read) (skipBlank rest)
            | _ => .error .malformed
        | _ => .error .malformed
    | _ => .error .malformed
end

/-- **The value a JSON text spells.** -/
def read (text : String) : Except ReadError Json := do
  let cs := skipBlank text.toList
  let (v, rest) ← readValue (2 * cs.length + 2) cs
  if (skipBlank rest).isEmpty then return v else throw .malformed

end Json
end TrackingPlan
