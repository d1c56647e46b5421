import TrackingPlan.Emission.Walk
/-!
# Preview — the identifiers an emission would allocate

A preview gives every object a type name from its path, every property a name within that type, and every reference
the name of its custom type; objects and references share one scope.  Ids are literals of tuples, so that different
paths have different ids whatever the names in them.
-/
namespace TrackingPlan

inductive Preview where
  | kind (p : Primitive)
  | array (items : Preview)
  | object (typeName : String) (properties : List (String × Preview))
  | union (members : List Preview)
  | reference (name : String)

namespace Preview

abbrev Naming (α : Type) : Type := EStateM Fault Namer α

def registerText (id name scope : String) : Naming String := fun n =>
  let (given, n') := n.register id name scope
  .ok given n'

/-- Registers a name that need not be a text; then the id must have one already.  The scope is begun even so. -/
def registerName (id : String) (name : Json) (scope : String) : Naming String :=
  match name with
  | .str s => registerText id s scope
  | _ => do match (← get).lookup id scope with
    | some given => return given
    | none => do
      modify (·.begun scope)
      throw .nameNotText

def typeScope : String := "types"
def propertyScope (typeName : String) : String := "properties/" ++ typeName

def typeId (path : Walk.Path) : String := Json.tupleText (.str "type" :: path)
def propertyId (path : Walk.Path) (name : Json) : String := Json.tupleText (.str "property" :: (path ++ [name]))
def referenceId (refName : String) : String := Json.tupleText [.str "ref", .str refName]

/-- The text of a node's own name. -/
def ownText : Json → Except Fault String
  | .str s => .ok s
  | v => if v.isGiven then .error .titleNotText else .ok ""

/-- The text a type is named by: its path, or without one its own name. -/
def typeText (i : Info) (path : Walk.Path) : Except Fault String := do
  let joined ← Walk.joinPath " " path
  if joined = "" then ownText i.name else return joined

/-- A text without words still names a type. -/
def typeNameOf (text : String) : String :=
  let name := Casing.pascal.convert text
  if name = "" then "Root" else name

def nameProperties (path : Walk.Path) (scope : String) :
    List (Json × Preview) → Naming (List (String × Preview))
  | [] => pure []
  | (name, p) :: rest => do
    let given ← registerName (propertyId path name) name scope
    let named ← nameProperties path scope rest
    return (given, p) :: named

def objectHook (i : Info) (properties : List (Json × Preview)) (path : Walk.Path) : Naming Preview := do
  match typeText i path with
  | .error f => throw f
  | .ok text =>
    let typeName ← registerText (typeId path) (typeNameOf text) typeScope
    let named ← nameProperties path (propertyScope typeName) properties
    return .object typeName (Table.ofEntries named)

def hooks : Walk.Hooks Namer Preview where
  primitive _ p _ _ := pure (.kind p)
  array _ a _ := pure (.array a)
  object := objectHook
  union _ _ as _ := pure (.union as)
  reference _ r _ := do return .reference (← registerText (referenceId r) (Casing.pascal.convert r) typeScope)

/-- **The preview of a node**, with the namer that gave the names. -/
def ofNode (c : Client) (n : Node) (path : Walk.Path) : Naming Preview := Walk.walk c hooks n path

mutual
def toJson : Preview → Json
  | .kind p => .str (Kind.primitive p).text
  | .array a => .obj [("array", toJson a)]
  | .object name ps => .obj [("type", .str name), ("properties", .obj (propertiesJson ps))]
  | .union as => .obj [("union", .arr (listJson as))]
  | .reference name => .obj [("ref", .str name)]
def listJson : List Preview → List Json
  | [] => []
  | p :: ps => toJson p :: listJson ps
def propertiesJson : List (String × Preview) → List (String × Json)
  | [] => []
  | (k, p) :: ps => (k, toJson p) :: propertiesJson ps
end

end Preview
end TrackingPlan
