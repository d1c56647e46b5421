import TrackingPlan.Text.Template.Layout
/-!
# Template — texts with fields in braces

A template is literal text with fields `{name!conversion:layout}`; `{{` and `}}` stand for single braces.  The one
name that has a value is `source`, and `[index]` and `.aspect` lead on from it.  `pieces` cuts a template up and goes
on to the end or the first place where it breaks; `render` fills the pieces in from the left, so of two faults the left
one is reported.
-/
namespace TrackingPlan
namespace Template

inductive Piece where
  | literal (text : List Char)
  | field (name : List Char) (conversion : Option Char) (layout : List Char)
  | broken
deriving DecidableEq

/-- Where the cutting stands: the parts read so far are kept last character first. -/
inductive Mode where
  | text (read : List Char)
  | name (read : List Char)
  | index (read : List Char)
  | conversion (name : List Char)
  | layout (name : List Char) (conversion : Option Char) (depth : Nat) (read : List Char)

/-- **The pieces of a template.** -/
def piecesFrom : Mode → List Char → List Piece
  | .text read, [] => [.literal read.reverse]
  | .text read, '{' :: '{' :: cs => piecesFrom (.text ('{' :: read)) cs
  | .text read, '}' :: '}' :: cs => piecesFrom (.text ('}' :: read)) cs
  | .text _, ['{'] => [.broken]
  | .text _, '}' :: _ => [.broken]
  | .text read, '{' :: cs => .literal read.reverse :: piecesFrom (.name []) cs
  | .text read, c :: cs => piecesFrom (.text (c :: read)) cs
  | .name _, [] => [.broken]
  | .name _, '{' :: _ => [.broken]
  | .name read, '}' :: cs => .field read.reverse none [] :: piecesFrom (.text []) cs
  | .name read, ':' :: cs => piecesFrom (.layout read.reverse none 0 []) cs
  | .name read, '!' :: cs => piecesFrom (.conversion read.reverse) cs
  | .name read, '[' :: cs => piecesFrom (.index ('[' :: read)) cs
  | .name read, c :: cs => piecesFrom (.name (c :: read)) cs
  | .index _, [] => [.broken]
  | .index read, ']' :: cs => piecesFrom (.name (']' :: read)) cs
  | .index read, c :: cs => piecesFrom (.index (c :: read)) cs
  | .conversion name, c :: '}' :: cs => .field name (some c) [] :: piecesFrom (.text []) cs
  | .conversion name, c :: ':' :: cs => piecesFrom (.layout name (some c) 0 []) cs
  | .conversion _, _ => [.broken]
  | .layout _ _ _ _, [] => [.broken]
  | .layout name conv depth read, '{' :: cs => piecesFrom (.layout name conv (depth + 1) ('{' :: read)) cs
  | .layout name conv 0 read, '}' :: cs => .field name conv read.reverse :: piecesFrom (.text []) cs
  | .layout name conv (depth + 1) read, '}' :: cs => piecesFrom (.layout name conv depth ('}' :: read)) cs
  | .layout name conv depth read, c :: cs => piecesFrom (.layout name conv depth (c :: read)) cs

def pieces (template : List Char) : List Piece := piecesFrom (.text []) template

/-! ## Values of fields -/

/-- One step from a value to another. -/
inductive Step where
  | index (key : List Char)
  | aspect (name : List Char)
  | broken
deriving DecidableEq

/-- Where the cutting of steps stands, the part read so far last character first. -/
inductive StepMode where
  | between
  | index (read : List Char)
  | aspect (read : List Char)

/-- The steps behind a field's name. -/
def stepsFrom : StepMode → List Char → List Step
  | .between, [] => []
  | .between, '[' :: cs => stepsFrom (.index []) cs
  | .between, '.' :: cs => stepsFrom (.aspect []) cs
  | .between, _ :: _ => [.broken]
  | .index _, [] => [.broken]
  | .index read, ']' :: cs => .index read.reverse :: stepsFrom .between cs
  | .index read, c :: cs => stepsFrom (.index (c :: read)) cs
  | .aspect read, [] => [.aspect read.reverse]
  | .aspect read, '[' :: cs => .aspect read.reverse :: stepsFrom (.index []) cs
  | .aspect read, '.' :: cs => .aspect read.reverse :: stepsFrom (.aspect []) cs
  | .aspect read, c :: cs => stepsFrom (.aspect (c :: read)) cs

/-- The number a name spells, `none` when it is no number. -/
def wholeNumber (cs : List Char) : Except Fault (Option Nat) :=
  if cs.isEmpty then .ok none
  else do
    let (n, rest) ← numberPrefix 0 cs
    return if rest.isEmpty then some n else none

def Value.follow (v : Value) : Step → Except Fault Value
  | .index key => do
    let index ← wholeNumber key
    if key.isEmpty then throw .malformed
    v.entry index
  | .aspect name => if name.isEmpty then .error .malformed else v.aspect (String.ofList name)
  | .broken => .error .malformed

def isStepStart (c : Char) : Bool := c == '[' || c == '.'

/-- The value that a field's name stands for. -/
def fieldValue (source name : List Char) : Except Fault Value := do
  let first := name.takeWhile (!isStepStart ·)
  let number ← wholeNumber first
  if first.isEmpty || number.isSome then throw .unnamed
  if first ≠ "source".toList then throw (.unknownName (String.ofList first))
  (stepsFrom .between (name.dropWhile (!isStepStart ·))).foldlM Value.follow (.text source)

/-- A value as its conversion turns it into a text; without one, or with the null character, it stays as it is. -/
def Value.convert (v : Value) : Option Char → Except Fault Value
  | none | some '\x00' => .ok v
  | some 's' => .ok (.text v.plain)
  | some 'r' => .ok (.text (v.literal false))
  | some 'a' => .ok (.text (v.literal true))
  | some _ => .error .malformed

/-! ## Filling in

A layout may hold fields itself, but those may not: `depth` counts the levels still allowed. -/

def renderAt (source : List Char) : Nat → List Char → Except Fault (List Char)
  | 0, _ => .error .malformed
  | depth + 1, template => do
    let parts ← (pieces template).mapM (fun
      | .literal text => pure text
      | .broken => throw Fault.malformed
      | .field name conversion layout => do
        let value ← (← fieldValue source name).convert conversion
        let layout ← if layout.contains '{' then renderAt source depth layout else pure layout
        value.layOut layout)
    return parts.flatten

/-- **The template filled in with its source.** -/
def render (template source : String) : Except Fault String :=
  (renderAt source.toList 2 template.toList).map String.ofList

end Template
end TrackingPlan
