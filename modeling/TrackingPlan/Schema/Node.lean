import TrackingPlan.Json.Value
import TrackingPlan.Schema.Kind
/-!
# Node — the normalized schema tree

A node is a schema made ready for emitters: one kind each, unions explicit, null folded into a flag.  Every node carries
the same `Info`; the rest depends on its kind.  A `bare` node has no kind; it is only ever made by hand.

Names, titles and descriptions are kept as the document has them, so they may be any value.
-/
namespace TrackingPlan

/-- What nodes of every kind carry. -/
structure Info where
  /-- The property key, or the title in its stead; empty for an anonymous node. -/
  name : Json := .str ""
  identifierName : Option Json := none
  description : Option Json := none
  isRequired : Bool := false
  isNullable : Bool := false
  /-- The custom type this node stands for. -/
  refName : Option String := none
  keywords : List (String × Json) := []

inductive Node where
  | bare (info : Info)
  | primitive (info : Info) (kind : Primitive) (enum : Option (List Json))
  | array (info : Info) (items : Node)
  | object (info : Info) (properties : List Node) (defs : List (String × Node))
  | union (info : Info) (members : List Node) (enum : Option (List Json))

namespace Node

def info : Node → Info
  | .bare i | .primitive i _ _ | .array i _ | .object i _ _ | .union i _ _ => i

def withInfo (f : Info → Info) : Node → Node
  | .bare i => .bare (f i)
  | .primitive i k e => .primitive (f i) k e
  | .array i n => .array (f i) n
  | .object i ps ds => .object (f i) ps ds
  | .union i ms e => .union (f i) ms e

def kind? : Node → Option Kind
  | .bare _ => none
  | .primitive _ p _ => some (.primitive p)
  | .array .. => some .array
  | .object .. => some .object
  | .union .. => some .union

/-- The enum of a node whose kind can have one. -/
def enum? : Node → Option (List Json)
  | .primitive _ _ e | .union _ _ e => e
  | _ => none

def isObject : Node → Bool
  | .object .. => true
  | _ => false

/-- An anonymous node that admits every value. -/
def anything : Node := .primitive {} .any none

/-- The first property of that name. -/
def property? (n : Node) (name : String) : Option Node :=
  match n with
  | .object _ ps _ => ps.find? (fun p => p.info.name.isText name)
  | _ => none

end Node
end TrackingPlan
