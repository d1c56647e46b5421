import TrackingPlan.Schema.Node
/-!
# Section — the parts of an event that a call sends

An event is an object whose properties follow the payload of a call.  A section is one of them as an object of its own,
under the event's name and description; an event without the section has an empty one.
-/
namespace TrackingPlan
namespace Event

/-- The first property of that name, when it is an object. -/
def objectProperty? (n : Node) (name : String) : Option Node := (n.property? name).filter Node.isObject

def emptyObject : Node := .object {} [] []

def defsOf : Node → List (String × Node)
  | .object _ _ ds => ds
  | _ => []

def propertiesOf : Node → List Node
  | .object _ ps _ => ps
  | _ => []

/-- The section's own node under the name and description of the event. -/
def sectionInfo (event : Node) (isRequired : Bool) (i : Info) : Info :=
  { i with name := event.info.name, description := event.info.description, isRequired, isNullable := false }

/-- **The `properties` of an event**, with the event's definitions; required when one of them is. -/
def properties (event : Node) : Node :=
  let found := (objectProperty? event "properties").getD emptyObject
  let isRequired := (propertiesOf found).any (fun p => p.info.isRequired)
  .object (sectionInfo event isRequired found.info) (propertiesOf found) (defsOf event)

/-- The `traits` of an event, or else those of its `context`. -/
def traits? (event : Node) : Option Node :=
  objectProperty? event "traits" <|> (objectProperty? event "context").bind (objectProperty? · "traits")

/-- **The `traits` of an event**, with definitions of their own; required when they are. -/
def traits (event : Node) : Node :=
  let found := (traits? event).getD emptyObject
  .object (sectionInfo event found.info.isRequired found.info) (propertiesOf found) (defsOf found)

end Event
end TrackingPlan
