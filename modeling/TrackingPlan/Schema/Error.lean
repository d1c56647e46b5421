import TrackingPlan.Json.Equality
import TrackingPlan.Json.Literal
import TrackingPlan.Schema.Pointer
/-!
# Error — what is wrong with a schema, and where

Every error of a schema is fatal for its build.  It carries its cause, the place it was met at and the definition it was
met in, and `message` gives the whole text.
-/
namespace TrackingPlan

/-- What a definition is asked for by: its key, or where the definitions are a list, a number or truth value that counts
to it.  Any other scalar asks for nothing. -/
inductive DefId where
  | key (name : String)
  | position (index : Int)
  | flag (b : Bool)
  | fraction (x : Double)
  | absent
deriving DecidableEq

namespace DefId

def value : DefId → Json
  | .key s => .str s
  | .position i => .int i
  | .flag b => .bool b
  | .fraction x => .float x
  | .absent => .null

/-- The id that a scalar is. -/
def ofJson? : Json → Option DefId
  | .str s => some (.key s)
  | .int i => some (.position i)
  | .bool b => some (.flag b)
  | .float x => some (.fraction x)
  | .null => some .absent
  | .arr _ | .obj _ => none

def text (id : DefId) : String := id.value.plainText

/-- Whether two ids are one: a truth value counts as the number it equals. -/
def same (a b : DefId) : Bool := a.value.equal b.value

theorem key_same_key (a b : String) : (key a).same (key b) = (a == b) := rfl

end DefId

/-- Why a reference does not resolve. -/
inductive BadReference where
  /-- It is not of the one form that can be resolved. -/
  | notLocal
  | undefined (id : DefId)
  | stated (reason : String)
deriving DecidableEq

namespace BadReference

def reason : BadReference → String
  | .notLocal => "only local '#/$defs/<id>' references are supported"
  | .undefined id => "no definition named '" ++ id.text ++ "'"
  | .stated s => s

end BadReference

inductive Cause where
  /-- A schema that is not an object. -/
  | notSchema (found : Json)
  /-- An event schema that is not an object. -/
  | notEvent (found : Json)
  | unsupportedType (value : Json)
  | badReference (ref : String) (why : BadReference)
  /-- Definitions that refer to each other in a ring; the first stands at the end again. -/
  | cycle (ids : List DefId)
  | stated (message : String)

namespace Cause

def text : Cause → String
  | .notSchema v => "Expected a schema object, got " ++ v.typeName
  | .notEvent v => "Expected the event schema to be an object, got " ++ v.typeName
  | .unsupportedType v => "Unsupported type: " ++ v.literalText
  | .badReference ref why =>
    "Cannot resolve $ref " ++ String.ofList (Quoted.quote ref.toList) ++ ": " ++ why.reason
  | .cycle ids => "Cyclic $ref between custom types: " ++ String.intercalate " -> " (ids.map DefId.text)
  | .stated s => s

end Cause

structure SchemaError where
  cause : Cause
  path : Location := ""
  definition : Option DefId := none

namespace SchemaError

/-- A ring is reported in its first definition. -/
def cyclic (ids : List DefId) (path : Location) : SchemaError := ⟨.cycle ids, path, ids.head?⟩

/-- An error in the definition that its place lies in. -/
def located (cause : Cause) (path : Location) : SchemaError :=
  ⟨cause, path, (Pointer.definition? path).map .key⟩

def places (e : SchemaError) : List String :=
  (match e.definition with | some id => ["definition '" ++ id.text ++ "'"] | none => [])
    ++ (if e.path = "" then [] else ["at " ++ e.path])

/-- **The text of the error**, with its place when it has one. -/
def message (e : SchemaError) : String :=
  match e.places with
  | [] => e.cause.text
  | ps => e.cause.text ++ " (" ++ String.intercalate ", " ps ++ ")"

end SchemaError
end TrackingPlan
