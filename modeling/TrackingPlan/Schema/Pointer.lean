import TrackingPlan.Number.Numeral
/-!
# Pointer — references to definitions, and places in a document

A local reference has the form `#/$defs/<id>`, where the id is not empty and holds no line break; one line break at the
very end is set aside.  A place in a document is written in the same way, step by step from `#`.
-/
namespace TrackingPlan

/-- A place in a document, as errors and log lines show it. -/
abbrev Location := String

namespace Pointer

def defsChars : List Char := "#/$defs/".toList

/-- The text without one line break at its end. -/
def withoutFinalBreak (cs : List Char) : List Char := if cs.getLast? = some '\n' then cs.dropLast else cs

/-- **The id a reference names**, `none` for any other form. -/
def target? (ref : String) : Option String :=
  match defsChars.isPrefixOf? ref.toList with
  | some rest =>
    let id := withoutFinalBreak rest
    if id.isEmpty || id.contains '\n' then none else some (String.ofList id)
  | none => none

/-- The definition a place lies in. -/
def definition? (place : Location) : Option String :=
  match defsChars.isPrefixOf? place.toList with
  | some rest =>
    let id := rest.takeWhile (· ≠ '/')
    if id.isEmpty then none else some (String.ofList id)
  | none => none

/-! ## Steps -/

def root : Location := "#"
def ofDefinition (id : String) : Location := "#/$defs/" ++ id
def property (place : Location) (key : String) : Location := place ++ "/properties/" ++ key
def definition (place : Location) (key : String) : Location := place ++ "/$defs/" ++ key
def items (place : Location) : Location := place ++ "/items"
def item (place : Location) (index : Nat) : Location := place ++ "/items/" ++ Numeral.nat index

end Pointer
end TrackingPlan
