import TrackingPlan.Schema.Node
/-!
# Record — a node as a JSON value

A record holds what is set and leaves out the rest: an empty name, absent texts, false flags, no keywords, no enum, no
definitions.  The properties of an object and the members of a union are always there.  A bare node has no record.
-/
namespace TrackingPlan

def entryIf (present : Bool) (key : String) (v : Json) : List (String × Json) := if present then [(key, v)] else []

def entryOf (key : String) : Option Json → List (String × Json)
  | some v => [(key, v)]
  | none => []

def Info.entries (i : Info) : List (String × Json) :=
  entryIf i.name.isGiven "name" i.name
    ++ entryOf "identifier_name" i.identifierName
    ++ entryOf "description" i.description
    ++ entryIf i.isRequired "is_required" (.bool true)
    ++ entryIf i.isNullable "is_nullable" (.bool true)
    ++ entryOf "ref_name" (i.refName.map .str)
    ++ entryIf (!i.keywords.isEmpty) "keywords" (.obj i.keywords)

namespace Node

def recordWith (kind : Kind) (i : Info) (own : List (String × Json)) : Json :=
  .obj (("kind", .str kind.text) :: (i.entries ++ own))

mutual
/-- **The record of a node**, unless a bare node stands in it. -/
def record? : Node → Option Json
  | .bare _ => none
  | .primitive i p e => some (recordWith (.primitive p) i (entryOf "enum" (e.map .arr)))
  | .array i n => do
    let r ← record? n
    return recordWith .array i [("items", r)]
  | .object i ps ds => do
    let rs ← recordList? ps
    let es ← recordDefs? ds
    return recordWith .object i (("properties", .arr rs) :: entryIf (!es.isEmpty) "defs" (.obj es))
  | .union i ms e => do
    let rs ← recordList? ms
    return recordWith .union i (entryOf "enum" (e.map .arr) ++ [("members", .arr rs)])
def recordList? : List Node → Option (List Json)
  | [] => some []
  | n :: ns => do
    let r ← record? n
    let rs ← recordList? ns
    return r :: rs
def recordDefs? : List (String × Node) → Option (List (String × Json))
  | [] => some []
  | (k, n) :: ds => do
    let r ← record? n
    let rs ← recordDefs? ds
    return (k, r) :: rs
end

end Node
end TrackingPlan
