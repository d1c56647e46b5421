import TrackingPlan.Emission.Options
import TrackingPlan.Json.Writer
import TrackingPlan.Naming.Namer
import TrackingPlan.Schema.Node
/-!
# Client — what an emitter asks about nodes

A client holds the options and custom types of one emission.  It says which nodes are written as references, which stand
for a custom type, and under which id an enum is named.
-/
namespace TrackingPlan

structure Client where
  options : Options
  types : List (DefId × Node)

namespace Client

def type? (c : Client) (id : String) : Option Node := c.types.lookup (.key id)

def customType (c : Client) (id : String) : Except Fault Node :=
  match c.type? id with
  | some n => .ok n
  | none => .error (.noSuchType id)

/-- The registered custom type that a node refers to. -/
def registered? (c : Client) (n : Node) : Option String :=
  n.info.refName.filter (fun r => (c.type? r).isSome)

/-- **The custom type to reference in place of a node**, where the target supports that. -/
def typeReference? (c : Client) (n : Node) : Option String :=
  if c.options.defSupport.isGiven then c.registered? n else none

/-- **The custom type a node stands for**: a reference without a type of its own is nothing else. -/
def standsFor? (c : Client) (n : Node) : Option String :=
  match n with
  | .primitive _ .any _ => c.registered? n
  | _ => none

/-- The shape behind a node. -/
def resolve (c : Client) (n : Node) : Node := ((c.standsFor? n).bind c.type?).getD n

/-- A value with the name of its type, as enum ids show it. -/
def typed (v : Json) : Json := .arr [.str v.typeName, v]

def enumText (values : List Json) : String := "enum:" ++ (Json.arr (values.map typed)).compact

/-- The enum of a node, which has to be of a kind that can have one. -/
def enumOf : Node → Except Fault (Option (List Json))
  | .primitive _ _ e | .union _ _ e => .ok e
  | _ => .error .noEnum

/-- **The id under which a node's enum is named**: by its values when enums are shared, else `defaultId`. -/
def enumId (c : Client) (n : Node) (defaultId : String) : Except Fault String :=
  if c.options.uniqueEnums.isGiven then (enumOf n).map (fun e => (e.map enumText).getD defaultId)
  else .ok defaultId

end Client
end TrackingPlan
