import TrackingPlan.Naming.Reserved
import TrackingPlan.Number.Numeral
import TrackingPlan.Text.Casing
import TrackingPlan.Text.Unicode.Lower
/-!
# Dialect — what identifiers look like in a target language

A dialect says which characters an identifier may hold, which words are reserved and how they are escaped, how a text
literal is quoted, and in which case style each sort of symbol is written.
-/
namespace TrackingPlan

inductive Language where
  | typescript
  | javascript
  | kotlin
  | python
  | csharp
deriving DecidableEq

namespace Language

def text : Language → String
  | .typescript => "typescript"
  | .javascript => "javascript"
  | .kotlin => "kotlin"
  | .python => "python"
  | .csharp => "cs"

def all : List Language := [.typescript, .javascript, .kotlin, .python, .csharp]

def ofText? (s : String) : Option Language := all.find? (fun l => l.text == s)

end Language

inductive Escape where
  | underscoreBefore
  | underscoreAfter
  | atSign
  | backticks
deriving DecidableEq

/-- The sorts of symbols, those inside another one with their owner's name. -/
inductive Symbol where
  | typeName
  | className
  | functionName
  | methodName
  | propertyName (owner : String)
  | enumName
  | enumMemberName (owner : String)
deriving DecidableEq

namespace Symbol

/-- The scope in which the names of such symbols must differ. -/
def scope : Symbol → String
  | .typeName => "types"
  | .className => "classes"
  | .functionName => "functions"
  | .methodName => "methods"
  | .propertyName owner => "properties/" ++ owner
  | .enumName => "enums"
  | .enumMemberName owner => "enums/" ++ owner

end Symbol

structure Dialect where
  reserved : List String := []
  /-- Reserved words are told apart by case. -/
  caseSensitive : Bool := false
  dollar : Bool := false
  quote : Char := '"'
  escape : Escape := .underscoreBefore
  casing : Symbol → Option Casing := fun _ => none

namespace Dialect

/-- No language in particular: nothing is reserved and no style is set. -/
def plain : Dialect := {}

def scriptCasing : Symbol → Option Casing
  | .typeName | .enumName | .enumMemberName _ => some .upperCamel
  | .functionName | .propertyName _ => some .camel
  | .className | .methodName => none

def typescript : Dialect := { reserved := Reserved.typescript, quote := '\'', casing := scriptCasing }

def javascript : Dialect :=
  { reserved := Reserved.javascript, quote := '\'', dollar := true, casing := scriptCasing }

def kotlin : Dialect where
  reserved := Reserved.kotlin
  caseSensitive := true
  quote := '\x60'
  escape := .backticks
  casing
    | .className | .enumName => some .upperCamel
    | .functionName | .propertyName _ => some .camel
    | .enumMemberName _ => some .screamingSnake
    | .typeName | .methodName => none

def python : Dialect where
  reserved := Reserved.python
  caseSensitive := true
  escape := .underscoreAfter
  casing
    | .className | .enumName => some .pascal
    | .functionName | .propertyName _ => some .snake
    | .enumMemberName _ => some .screamingSnake
    | .typeName | .methodName => none

def csharp : Dialect where
  reserved := Reserved.csharp
  escape := .atSign
  casing
    | .className | .methodName | .propertyName _ | .enumName | .enumMemberName _ => some .pascal
    | .typeName | .functionName => none

def ofLanguage : Language → Dialect
  | .typescript => typescript
  | .javascript => javascript
  | .kotlin => kotlin
  | .python => python
  | .csharp => csharp

/-! ## Identifiers -/

def isLegal (d : Dialect) (c : Char) : Bool := c.isAlphanum || c == '_' || (d.dollar && c == '$')

def isReserved (d : Dialect) (name : String) : Bool :=
  d.reserved.contains (if d.caseSensitive then name else Unicode.lowerText name)

def escapeReserved (d : Dialect) (name : String) : String :=
  match d.escape with
  | .underscoreBefore => "_" ++ name
  | .underscoreAfter => name ++ "_"
  | .atSign => "@" ++ name
  | .backticks => "\x60" ++ name ++ "\x60"

def startsWithDigit : List Char → Bool
  | c :: _ => c.isDigit
  | [] => false

/-- The text with an underscore for each illegal character, and one in front if it could not start an identifier. -/
def legalized (d : Dialect) (cs : List Char) : List Char :=
  let cs := cs.map (fun c => if d.isLegal c then c else '_')
  if cs.isEmpty || startsWithDigit cs then '_' :: cs else cs

def escapeIfReserved (d : Dialect) (name : String) : String :=
  if d.isReserved name then d.escapeReserved name else name

/-- **Any text as an identifier.** -/
def sanitize (d : Dialect) (name : String) : String := d.escapeIfReserved (String.ofList (d.legalized name.toList))

def stripBackticks (cs : List Char) : List Char :=
  ((cs.dropWhile (· == '\x60')).reverse.dropWhile (· == '\x60')).reverse

/-- The name with an ending behind it.  Backticks go around the whole, and only where the whole is reserved. -/
def withEnding (d : Dialect) (name : String) (ending : List Char) : String :=
  match d.escape with
  | .backticks => d.escapeIfReserved (String.ofList (stripBackticks name.toList ++ '_' :: ending))
  | _ => String.ofList (name.toList ++ '_' :: ending)

def withSuffix (d : Dialect) (name : String) (counter : Int) : String := d.withEnding name (Numeral.intDigits counter)

/-! ## Text literals -/

def isPlainIdentifier (d : Dialect) (cs : List Char) : Bool :=
  !cs.isEmpty && cs.all d.isLegal && !startsWithDigit cs && !d.isReserved (String.ofList cs)

/-- A backslash goes in front of every backslash and every quote. -/
def quotedChars (quote : Char) (cs : List Char) : List Char :=
  quote :: (cs.flatMap (fun c => if c = '\\' ∨ c = quote then ['\\', c] else [c]) ++ [quote])

/-- **A text as it is written in place of an identifier**: itself when it is one, else quoted. -/
def escapeString (d : Dialect) (value : String) : String :=
  if d.isPlainIdentifier value.toList then value else String.ofList (quotedChars d.quote value.toList)

end Dialect
end TrackingPlan
