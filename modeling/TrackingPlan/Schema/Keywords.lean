import TrackingPlan.Fault
import TrackingPlan.Schema.Node
/-!
# Keywords — what the keywords of one schema object say

Each function reads a keyword from the members of a schema object, without looking into the schemas inside it: the
types, the enum, whether null is admitted, the required names, and the keywords kept as they stand.
-/
namespace TrackingPlan
namespace Keywords

abbrev Members := List (String × Json)

/-- The keywords copied to the node as they stand, in this order. -/
def advanced : List String :=
  ["format", "pattern", "maxLength", "minLength", "maximum", "minimum", "exclusiveMaximum", "exclusiveMinimum",
    "multipleOf", "maxItems", "minItems", "uniqueItems"]

def copied (ms : Members) : Members := advanced.filterMap (fun k => (ms.lookup k).map (fun v => (k, v)))

def reference? (ms : Members) : Option String :=
  match ms.lookup "$ref" with
  | some (.str s) => some s
  | _ => none

/-! ## Types -/

/-- One entry of the types; any other value is unsupported. -/
def typeOf : Json → Except Json RawType
  | .str s => match RawType.ofText? s with
    | some t => .ok t
    | none => .error (.str s)
  | v => .error v

/-- **The types a schema declares**, each once, in their order; else the first unsupported value. -/
def types (ms : Members) : Except Json (List RawType) :=
  match ms.lookup "type" with
  | none | some .null => .ok []
  | some (.arr vs) => (vs.mapM typeOf).map List.eraseDups
  | some v => (typeOf v).map ([·])

/-! ## Enum -/

/-- The enum as written; `const` is an enum of one value, and so is an `enum` that is not a list. -/
def rawEnum (ms : Members) : Option (List Json) :=
  match ms.lookup "enum" with
  | some (.arr vs) => some vs
  | some v => some [v]
  | none => (ms.lookup "const").map ([·])

/-- The values without those that one of `seen`, or an earlier value, is the same scalar as. -/
def distinctFrom (seen : List Json) : List Json → List Json
  | [] => []
  | v :: vs => if seen.any v.sameScalar then distinctFrom seen vs else v :: distinctFrom (v :: seen) vs

def scalars (vs : List Json) : List Json := distinctFrom [] (vs.filter Json.isScalar)

/-- **The distinct scalars of the enum**, `none` when there are none. -/
def enum? (ms : Members) : Option (List Json) :=
  match rawEnum ms with
  | some vs => if (scalars vs).isEmpty then none else some (scalars vs)
  | none => none

/-- How many values of the enum are no scalars. -/
def droppedCount (ms : Members) : Nat := (((rawEnum ms).getD []).filter (fun v => !v.isScalar)).length

/-! ## Null -/

def isNullLike : Json → Bool
  | .null => true
  | .str s => s == "null"
  | _ => false

/-- Whether a schema of these types admits null. -/
def admitsNull (ms : Members) (types : List RawType) : Bool :=
  (types.contains .null || RawType.kindOf types == .primitive .any)
    && (match rawEnum ms with | some vs => vs.any isNullLike | none => true)

/-! ## Required names -/

/-- The names that a value of `required` lists: the texts of a list of scalars, the characters of a text, the keys of an
object. -/
def namesIn : Json → Except Fault (List String)
  | .arr vs =>
    if vs.all Json.isScalar then .ok (vs.filterMap (fun | .str s => some s | _ => none)) else .error .notNames
  | .str s => .ok (s.toList.map (fun c => String.ofList [c]))
  | .obj ms => .ok (ms.map Prod.fst)
  | _ => .error .notNames

def required (ms : Members) : Except Fault (List String) :=
  match Json.given? (ms.lookup "required") with
  | some v => namesIn v
  | none => .ok []

/-! ## Metadata -/

/-- Writes a schema's own metadata onto its node.  A reference names the custom type even where it is of no use. -/
def describe (ms : Members) (types : List RawType) (name : Json) (isRequired : Bool) (node : Node) : Node :=
  let title := Json.given? (ms.lookup "title")
  node.withInfo (fun i =>
    { name := Json.firstGiven [name, title.getD .null]
      identifierName := title <|> i.identifierName
      description := Json.given? (ms.lookup "description") <|> i.description
      isRequired := isRequired || i.isRequired
      isNullable := admitsNull ms types
      refName := match reference? ms with
        | some ref => Pointer.target? ref
        | none => i.refName
      keywords := copied ms })

end Keywords
end TrackingPlan
