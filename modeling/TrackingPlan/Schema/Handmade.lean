import TrackingPlan.Fault
import TrackingPlan.Schema.Node
/-!
# Handmade — nodes put together by hand

Only a primitive can be asked for with a kind that it cannot have.
-/
namespace TrackingPlan
namespace Node

/-- A primitive of a given kind. -/
def makePrimitive (info : Info) (kind : Kind) (enum : Option (List Json)) : Except Fault Node :=
  match kind with
  | .primitive p => .ok (.primitive info p enum)
  | k => .error (.notPrimitive k)

end Node
end TrackingPlan
