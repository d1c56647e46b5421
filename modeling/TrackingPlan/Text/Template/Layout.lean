import TrackingPlan.Text.Template.Value
import TrackingPlan.Text.Unicode.Digit
/-!
# Layout — how wide a text is set

A layout is `[[fill]align][0][width][.precision]`: the text is cut to the precision and padded to the width.  Its
numbers may be written in the digits of any script.
-/
namespace TrackingPlan
namespace Template

/-! ## Numbers -/

/-- The largest number a field may hold. -/
def maxNumber : Nat := 9223372036854775807

/-- Reads the digits in front: the number, if it is not too large, and the rest. -/
def numberPrefix (value : Nat) : List Char → Except Fault (Nat × List Char)
  | [] => .ok (value, [])
  | c :: cs => match Unicode.digitValue? c with
    | some d => if maxNumber < value * 10 + d then .error .malformed else numberPrefix (value * 10 + d) cs
    | none => .ok (value, c :: cs)

def startsWithDigit : List Char → Bool
  | c :: _ => (Unicode.digitValue? c).isSome
  | [] => false

/-! ## Layouts -/

inductive Align where
  | left
  | right
  | center
deriving DecidableEq

def align? : Char → Option Align
  | '<' => some .left
  | '>' => some .right
  | '^' => some .center
  | _ => none

structure Layout where
  fill : Char
  align : Align
  width : Nat
  precision : Option Nat

/-- Reads a zero that asks for zeros as the fill. -/
def readZeroFill (align : Align) : List Char → Char × Align × List Char
  | '0' :: cs => ('0', align, cs)
  | cs => (' ', align, cs)

/-- Reads `[[fill]align][0]`, the rest left over. -/
def readAlign : List Char → Char × Align × List Char
  | c :: a :: cs => match align? a, align? c with
    | some al, _ => (c, al, cs)
    | none, some al => readZeroFill al (a :: cs)
    | none, none => readZeroFill .left (c :: a :: cs)
  | [c] => match align? c with
    | some al => (' ', al, [])
    | none => readZeroFill .left [c]
  | [] => (' ', .left, [])

def readLayout (cs : List Char) : Except Fault Layout := do
  let (fill, align, cs) := readAlign cs
  let (width, cs) ← numberPrefix 0 cs
  let (precision, cs) ← match cs with
    | '.' :: cs =>
      if startsWithDigit cs then
        let (p, cs) ← numberPrefix 0 cs
        pure (some p, cs)
      else throw .malformed
    | cs => pure (none, cs)
  if cs.isEmpty ∨ cs = ['s'] then return { fill, align, width, precision } else throw .malformed

/-- The largest width that is filled up. -/
def maxWidth : Nat := 10000000000

/-- Sets a text in a layout. -/
def Layout.apply (l : Layout) (text : List Char) : Except Fault (List Char) :=
  let text := match l.precision with
    | some p => text.take p
    | none => text
  let gap := l.width - text.length
  let before := match l.align with
    | .left => 0
    | .right => gap
    | .center => gap / 2
  if maxWidth < l.width then .error .tooWide
  else .ok (List.replicate before l.fill ++ text ++ List.replicate (gap - before) l.fill)

/-- **A value in a layout**; only a text can have one that is not empty. -/
def Value.layOut (v : Value) (layout : List Char) : Except Fault (List Char) :=
  if layout.isEmpty then .ok v.plain
  else match v with
    | .text cs => do (← readLayout layout).apply cs
    | _ => .error .notLaidOut

end Template
end TrackingPlan
