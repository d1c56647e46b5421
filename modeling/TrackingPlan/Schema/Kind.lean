/-!
# Kind — the kinds of nodes, and the type names of a schema

A schema's `type` names one or more types (`RawType`); a node has one kind.  `null` is a type name without a kind of
its own: it makes a value nullable, and alone it leaves any value to the enum.
-/
namespace TrackingPlan

/-- The kinds without inner structure. -/
inductive Primitive where
  | any
  | string
  | boolean
  | integer
  | number
deriving DecidableEq

inductive Kind where
  | primitive (p : Primitive)
  | object
  | array
  | union
deriving DecidableEq

namespace Kind

def all : List Kind :=
  [.primitive .any, .primitive .string, .primitive .boolean, .primitive .integer, .primitive .number,
    .object, .array, .union]

def text : Kind → String
  | .primitive .any => "any"
  | .primitive .string => "string"
  | .primitive .boolean => "boolean"
  | .primitive .integer => "integer"
  | .primitive .number => "number"
  | .object => "object"
  | .array => "array"
  | .union => "union"

def ofText? (s : String) : Option Kind := all.find? (fun k => k.text == s)

end Kind

inductive RawType where
  | string
  | integer
  | number
  | boolean
  | object
  | array
  | null
deriving DecidableEq

namespace RawType

def ofText? : String → Option RawType
  | "string" => some .string
  | "integer" => some .integer
  | "number" => some .number
  | "boolean" => some .boolean
  | "object" => some .object
  | "array" => some .array
  | "null" => some .null
  | _ => none

def kind : RawType → Kind
  | .string => .primitive .string
  | .integer => .primitive .integer
  | .number => .primitive .number
  | .boolean => .primitive .boolean
  | .object => .object
  | .array => .array
  | .null => .primitive .any

/-- The kind of a schema with these types, `null` aside. -/
def kindOf (types : List RawType) : Kind :=
  match types.filter (· ≠ .null) with
  | [] => .primitive .any
  | [t] => t.kind
  | _ => .union

end RawType
end TrackingPlan
