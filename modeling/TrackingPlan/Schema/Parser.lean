import TrackingPlan.Schema.Keywords
import TrackingPlan.Schema.Script
/-!
# Parser — schemas to nodes

A schema object is parsed in two layers.  Its *shape* is what its types call for: properties and definitions, items,
the members of a union, an enum.  `parsePart` adds the rest: the check that it is an object, its reference and its
metadata.  Some schemas give their shape only, such as the members of a union and plain items.

A shape needs its schema's values two levels down: the members of `properties`, the entries of `items`.  So `view` goes
over a document once and keeps with each value its members and entries, each with its own shape (`Part`); the shape of a
schema is then an ordinary function of its view.

All of it is a `Script`, so a parse stands apart from how its references are followed.  A `linked` parse takes the
definitions at the root for custom types; otherwise they are parsed like those of any other schema.
-/
namespace TrackingPlan
namespace Parser

open Keywords (Members)

/-- Parses what a schema of these types has at this place, without metadata. -/
abbrev Shape : Type := List RawType → Location → Script Node

/-- A value with its shape as a schema. -/
structure Part where
  raw : Json
  shape : Shape

/-- A value with its shape, and its members or entries with theirs. -/
structure View extends Part where
  members : List (String × Part)
  entries : List Part

def logger : String := Log.packageLogger ++ ".pipeline.schema_ast.parser"

def typesAt (ms : Members) (path : Location) : Script (List RawType) :=
  match Keywords.types ms with
  | .ok ts => .done ts
  | .error v => .fail (.schema (.located (.unsupportedType v) path))

/-- Makes sure that the reference of a schema resolves, if it has one. -/
def follow (ms : Members) (path : Location) : Script Unit :=
  match Keywords.reference? ms with
  | some ref => .reference ref path (.done ())
  | none => .done ()

/-- **Parses a schema with its metadata.** -/
def parsePart (part : Part) (name : Json) (isRequired : Bool) (path : Location) : Script Node :=
  match part.raw with
  | .obj ms => do
    follow ms path
    let types ← typesAt ms path
    let node ← part.shape types path
    return Keywords.describe ms types name isRequired node
  | found => .fail (.schema (.located (.notSchema found) path))

/-! ## Enums -/

def noteDropped (count : Nat) (path : Location) : Script Unit :=
  if count = 0 then .done ()
  else Script.remark .warning logger ("Dropped " ++ Numeral.nat count ++ " object/array enum value(s) at " ++ path)

/-- The enum of a schema; what cannot be in one is dropped and noted. -/
def enumAt (ms : Members) (path : Location) : Script (Option (List Json)) := do
  noteDropped (Keywords.droppedCount ms) path
  return Keywords.enum? ms

/-! ## Objects -/

/-- The members of a keyword that holds schemas by name. -/
def membersOf : Option View → Except Fault (List (String × Part))
  | some v => match v.raw with
    | .obj _ => .ok v.members
    | raw => if raw.isGiven then .error .notAnObject else .ok []
  | none => .ok []

/-- Parses the properties in order; a truth value in place of a schema says nothing about its property. -/
def parseProperties (required : List String) (path : Location) :
    List (String × Part) → Script (List Node)
  | [] => pure []
  | (k, p) :: rest => do
    if p.raw.isBool then parseProperties required path rest
    else
      let node ← parsePart p (.str k) (required.contains k) (Pointer.property path k)
      let nodes ← parseProperties required path rest
      return node :: nodes

/-- Parses one definition; those of the root are custom types. -/
def parseDefinition (linked : Bool) (path : Location) (k : String) (p : Part) : Script Node :=
  if linked ∧ path = Pointer.root then .definition k path .done
  else parsePart p (.str k) false (Pointer.definition path k)

def parseDefinitions (linked : Bool) (path : Location) :
    List (String × Part) → Script (List (String × Node))
  | [] => pure []
  | (k, p) :: rest => do
    if p.raw.isBool then
      Script.remark .warning logger ("Skipping boolean $defs entry '" ++ k ++ "' at " ++ path)
      parseDefinitions linked path rest
    else
      let node ← parseDefinition linked path k p
      let nodes ← parseDefinitions linked path rest
      return (k, node) :: nodes

def objectShape (linked : Bool) (ms : Members) (vs : List (String × View)) (path : Location) :
    Script Node := do
  let required ← Script.ofExcept (Keywords.required ms)
  let properties ← Script.ofExcept (membersOf (vs.lookup "properties"))
  let nodes ← parseProperties required path properties
  let definitions ← Script.ofExcept (membersOf (vs.lookup "$defs"))
  let defs ← parseDefinitions linked path definitions
  return .object {} nodes defs

/-! ## Arrays -/

/-- Parses an item: in full when it is a reference, else its shape. -/
def parseItem (p : Part) (path : Location) : Script Node :=
  match p.raw with
  | .obj ms =>
    if (Keywords.reference? ms).isSome then parsePart p .null false path
    else do
      let types ← typesAt ms path
      p.shape types path
  | _ => parsePart p .null false path

/-- Whether an item has properties and leaves open that they are an object's. -/
def isTypeless (ms : Members) : Bool :=
  (Json.given? (ms.lookup "properties")).isSome && (ms.lookup "type").isNone

/-- Parses the only item of an array.  What it refers to is recorded on the array too; a typeless item may be an object
or an array of them. -/
def singleItem (p : Part) (path : Location) : Script Node :=
  match p.raw with
  | .obj ms =>
    if (Keywords.reference? ms).isSome then do
      let node ← parsePart p .null false path
      return .array { refName := node.info.refName } node
    else if isTypeless ms then do
      let node ← p.shape [.array, .object] path
      return .array {} node
    else do
      let node ← parseItem p path
      return .array {} node
  | _ => pure (.array {} .anything)

/-- The entries of an item list that are schemas, with their places. -/
def schemaEntries (path : Location) (index : Nat) : List Part → List (Location × Part)
  | [] => []
  | p :: ps =>
    if p.raw.isObject then (Pointer.item path index, p) :: schemaEntries path (index + 1) ps
    else schemaEntries path (index + 1) ps

def parseItems : List (Location × Part) → Script (List Node)
  | [] => pure []
  | (place, p) :: rest => do
    let node ← parseItem p place
    let nodes ← parseItems rest
    return node :: nodes

/-- An array of the schemas of an item list: of any values, of the only one, or of the union of several. -/
def listShape : List (Location × Part) → Script Node
  | [] => pure (.array {} .anything)
  | [(place, p)] => singleItem p place
  | entries => do
    let members ← parseItems entries
    return .array {} (.union {} members none)

/-- An array of what `items` holds: one schema, or a list of them. -/
def arrayShape (items : Option View) (path : Location) : Script Node :=
  match items with
  | none => pure (.array {} .anything)
  | some v => match v.raw with
    | .obj _ => singleItem v.toPart (Pointer.items path)
    | .arr _ => listShape (schemaEntries path 0 v.entries)
    | _ => pure (.array {} .anything)

/-! ## Unions and primitives -/

def primitiveShape (ms : Members) (types : List RawType) (p : Primitive) (path : Location) : Script Node := do
  let enum ← enumAt ms path
  return .primitive {} p (if types = [.null] then some [.null] else enum)

/-- The shape of a schema as one of its types. -/
def memberShape (linked : Bool) (ms : Members) (vs : List (String × View)) (path : Location) :
    RawType → Script Node
  | .object => objectShape linked ms vs path
  | .array => arrayShape (vs.lookup "items") path
  | .string => primitiveShape ms [.string] .string path
  | .integer => primitiveShape ms [.integer] .integer path
  | .number => primitiveShape ms [.number] .number path
  | .boolean => primitiveShape ms [.boolean] .boolean path
  | .null => primitiveShape ms [.null] .any path

def parseMembers (linked : Bool) (ms : Members) (vs : List (String × View)) (path : Location) :
    List RawType → Script (List Node)
  | [] => pure []
  | t :: ts => do
    let node ← memberShape linked ms vs path t
    let nodes ← parseMembers linked ms vs path ts
    return node :: nodes

/-- **The shape of a schema**: of its one type, of none, or the union of several. -/
def shapeOf (linked : Bool) (ms : Members) (vs : List (String × View)) : Shape := fun types path =>
  match types.filter (· ≠ .null) with
  | [] => primitiveShape ms types .any path
  | [t] => memberShape linked ms vs path t
  | ts => do
    let members ← parseMembers linked ms vs path ts
    let enum ← enumAt ms path
    return .union {} members enum

/-! ## Views -/

/-- What is no object has no shape of its own. -/
def noShape : Shape := fun types path => primitiveShape [] types .any path

mutual
def view (linked : Bool) : Json → View
  | .obj ms =>
    let vs := viewMembers linked ms
    { raw := .obj ms, shape := shapeOf linked ms vs, members := vs.map (fun e => (e.1, e.2.toPart)), entries := [] }
  | .arr xs => { raw := .arr xs, shape := noShape, members := [], entries := (viewEntries linked xs).map View.toPart }
  | v => { raw := v, shape := noShape, members := [], entries := [] }
def viewMembers (linked : Bool) : List (String × Json) → List (String × View)
  | [] => []
  | (k, v) :: ms => (k, view linked v) :: viewMembers linked ms
def viewEntries (linked : Bool) : List Json → List View
  | [] => []
  | v :: vs => view linked v :: viewEntries linked vs
end

/-! ## What a view holds -/

theorem view_raw (linked : Bool) (v : Json) : (view linked v).raw = v := by
  cases v <;> rfl

theorem viewMembers_eq_map (linked : Bool) (ms : List (String × Json)) :
    viewMembers linked ms = ms.map (fun e => (e.1, view linked e.2)) := by
  induction ms with
  | nil => rfl
  | cons e ms ih => obtain ⟨k, v⟩ := e; rw [viewMembers, ih]; rfl

theorem viewEntries_eq_map (linked : Bool) (vs : List Json) :
    viewEntries linked vs = vs.map (view linked) := by
  induction vs with
  | nil => rfl
  | cons v vs ih => rw [viewEntries, ih]; rfl

theorem shape_view_obj (linked : Bool) (ms : List (String × Json)) :
    (view linked (.obj ms)).shape = shapeOf linked ms (ms.map (fun e => (e.1, view linked e.2))) := by
  rw [view, viewMembers_eq_map]

theorem members_view_obj (linked : Bool) (ms : List (String × Json)) :
    (view linked (.obj ms)).members = ms.map (fun e => (e.1, (view linked e.2).toPart)) := by
  rw [view, viewMembers_eq_map, List.map_map]; rfl

theorem entries_view_arr (linked : Bool) (vs : List Json) :
    (view linked (.arr vs)).entries = vs.map (fun v => (view linked v).toPart) := by
  rw [view, viewEntries_eq_map, List.map_map]; rfl

/-! ## Parsing a document -/

/-- **The script of a document's schema.** -/
def script (linked : Bool) (raw : Json) (name : Json) (isRequired : Bool) (path : Location) : Script Node :=
  parsePart (view linked raw).toPart name isRequired path

/-- **Parses a document's schema**, following references by `links`; without them they are only recorded. -/
def parse (links : Option Links) (raw : Json) (name : Json) (isRequired : Bool) (path : Location) : Parsing Node :=
  (script links.isSome raw name isRequired path).run (links.getD .recording)

end Parser
end TrackingPlan
