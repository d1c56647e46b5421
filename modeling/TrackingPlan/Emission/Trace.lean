import TrackingPlan.Emission.Walk
/-!
# Trace — a walk recorded

A trace keeps, for every hook called, what the hook was given, and the id that the node's enum would be named under if
it has one.
-/
namespace TrackingPlan

/-- What a hook of any kind sees. -/
structure Trace.Call where
  path : Walk.Path
  name : Json
  enumId : Option String

inductive Trace where
  | primitive (call : Trace.Call) (kind : Primitive) (nullable : Bool)
  | array (call : Trace.Call) (items : Trace)
  | object (call : Trace.Call) (properties : List Trace)
  | union (call : Trace.Call) (members : List Trace)
  | reference (call : Trace.Call) (refName : String)

namespace Trace

def call (c : Client) (n : Node) (path : Walk.Path) : EStateM Fault Unit Call := do
  let name := n.info.name
  match n.enum? with
  | none => return { path, name, enumId := none }
  | some _ =>
    match (Walk.joinPath "." path).bind (c.enumId n) with
    | .ok id => return { path, name, enumId := some id }
    | .error f => throw f

def hooks (c : Client) : Walk.Hooks Unit Trace where
  primitive i p e path := do return .primitive (← call c (.primitive i p e) path) p i.isNullable
  array i a path := do return .array (← call c (.array i .anything) path) a
  object i as path := do return .object (← call c (.object i [] []) path) (as.map Prod.snd)
  union i e as path := do return .union (← call c (.union i [] e) path) as
  reference n r path := do return .reference (← call c n path) r

/-- **The trace of the walk over a node.** -/
def ofNode (c : Client) (n : Node) (path : Walk.Path) : Except Fault Trace :=
  match (Walk.walk c (hooks c) n path).run () with
  | .ok t _ => .ok t
  | .error f _ => .error f

end Trace
end TrackingPlan
