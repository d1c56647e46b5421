import TrackingPlan.Emission.Client
import TrackingPlan.Event.Call
import TrackingPlan.Resolver
/-!
# Build — an event with its custom types

Preparing a build resolves all definitions first and then parses the event itself, whose references are therefore
already known.
-/
namespace TrackingPlan

structure Build where
  eventName : String
  schema : Node
  customTypes : List (DefId × Node)
  options : Options

namespace Build

def logger : String := Log.packageLogger ++ ".pipeline.generator"

/-- Resolves the definitions of an event schema, then parses the schema. -/
def prepareObject (raw : Json) (eventName : String) (options : Options) : Parsing Build := do
  let resolver ← Parsing.ofExcept (Resolver.ofDocument raw eventName options.description)
  let customTypes ← resolver.resolveAll
  Parsing.note .debug logger ("Resolved " ++ Numeral.nat customTypes.length
    ++ " custom type(s) for '" ++ eventName ++ "'")
  let schema ← resolver.parse raw (.str eventName) false Pointer.root
  return { eventName, schema, customTypes, options }

/-- **Prepares the build of an event schema.** -/
def prepare (raw : Json) (eventName : String) (options : Options) : Parsing Build :=
  if raw.isObject then prepareObject raw eventName options
  else Parsing.fail ⟨.notEvent raw, Pointer.root, none⟩

def properties (b : Build) : Node := Event.properties b.schema
def traits (b : Build) : Node := Event.traits b.schema

/-- The section that a call sends. -/
def payload (b : Build) (call : Json) : Except Fault Node := (Call.ofJson call).map (·.payload b.schema)

def client (b : Build) : Client := { options := b.options, types := b.customTypes }

/-- A namer that has given out no names yet. -/
def namer (b : Build) : Except Fault Namer := b.options.emitted.map Namer.ofLanguage

end Build
end TrackingPlan
