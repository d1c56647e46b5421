import Mathlib.Data.List.Nodup
import TrackingPlan.Proofs.Keywords
import TrackingPlan.Proofs.Parser.Faithful
import TrackingPlan.Proofs.Proper
/-!
# Anywhere — a schema means the same wherever it stands

Two parses of one schema, under two names and at two places, ask the same and end with the same node but for what says
where it stands (`script_anywhere`); a resolver answers the same at all places, whatever it was used for before.  The
same holds of two schemas that refer to one custom type and are otherwise the same (`SameReference`), as a reference is
followed by its custom type alone.  The nodes have one shape as far as they equal themselves, and they do when the
schema is proper (`parse_anywhere`).
-/
namespace TrackingPlan

open Keywords (Members)

/-! ## Schemas that refer to the same -/

/-- **Two schemas that refer to one custom type**, or to none, and are the same otherwise. -/
structure SameReference (ms ns : Members) : Prop where
  others : ∀ key, key ≠ "$ref" → ms.lookup key = ns.lookup key
  target : (Keywords.reference? ms).map Pointer.target? = (Keywords.reference? ns).map Pointer.target?

namespace SameReference

variable {ms ns : Members}

theorem refl (ms : Members) : SameReference ms ms := ⟨fun _ _ => rfl, rfl⟩

variable (h : SameReference ms ns)

include h

theorem details : Keywords.SameDetails ms ns where
  lookup key hkey := h.others key fun he => hkey (he ▸ by decide)

theorem types : Keywords.types ms = Keywords.types ns := by
  rw [Keywords.types, Keywords.types, h.others _ (by decide)]

theorem describe (ts : List RawType) (name : Json) (isRequired : Bool) :
    Keywords.describe ms ts name isRequired = Keywords.describe ns ts name isRequired := by
  have hnull : Keywords.admitsNull ms ts = Keywords.admitsNull ns ts := by
    rw [Keywords.admitsNull, Keywords.admitsNull, h.details.rawEnum]
  exact h.details.describe hnull h.target name isRequired

end SameReference

namespace Parser

variable {ms ns : Members} {linked : Bool}

theorem views_of_sameReference (h : SameReference ms ns) (linked : Bool) {key : String} (hkey : key ≠ "$ref") :
    (ms.map (fun e => (e.1, view linked e.2))).lookup key = (ns.map (fun e => (e.1, view linked e.2))).lookup key := by
  rw [lookup_views, lookup_views, h.others key hkey]

theorem memberShape_of_sameReference (h : SameReference ms ns) (path : Location) (t : RawType) :
    memberShape linked ms (ms.map (fun e => (e.1, view linked e.2))) path t =
      memberShape linked ns (ns.map (fun e => (e.1, view linked e.2))) path t := by
  have hproperties := views_of_sameReference h linked (show "properties" ≠ "$ref" by decide)
  have hdefs := views_of_sameReference h linked (show "$defs" ≠ "$ref" by decide)
  have hitems := views_of_sameReference h linked (show "items" ≠ "$ref" by decide)
  cases t <;>
    simp only [memberShape, objectShape, primitiveShape, h.details.required, h.details.enumAt, hproperties, hdefs,
      hitems]

theorem parseMembers_of_sameReference (h : SameReference ms ns) (path : Location) : ∀ ts : List RawType,
    parseMembers linked ms (ms.map (fun e => (e.1, view linked e.2))) path ts =
      parseMembers linked ns (ns.map (fun e => (e.1, view linked e.2))) path ts
  | [] => rfl
  | t :: ts => by
    rw [parseMembers, parseMembers, memberShape_of_sameReference h, parseMembers_of_sameReference h path ts]

/-- **The shape of a schema does not hang on its reference.** -/
theorem shape_of_sameReference (h : SameReference ms ns) :
    (view linked (.obj ms)).shape = (view linked (.obj ns)).shape := by
  rw [shape_view_obj, shape_view_obj]
  funext ts path
  simp only [shapeOf, primitiveShape, h.details.enumAt, memberShape_of_sameReference h,
    parseMembers_of_sameReference h]

/-! ## Nodes without their place -/

theorem unplaced_describe (ts : List RawType) (name name' : Json) (isRequired isRequired' : Bool) (n : Node) :
    (Keywords.describe ms ts name isRequired n).withInfo Info.unplaced =
      (Keywords.describe ms ts name' isRequired' n).withInfo Info.unplaced := by
  cases n <;> rfl

section

variable {reference : String → Location → Except Fault Unit} {definition : String → Location → Except Fault Node}
  (hreference : ∀ ref ref' p q, Pointer.target? ref = Pointer.target? ref' →
    Alongside Eq (reference ref p) (reference ref' q))
  (hdefinition : ∀ key p q, Alongside Eq (definition key p) (definition key q))

include hreference

/-- A reference is followed by its custom type alone. -/
theorem follow_anywhere (h : SameReference ms ns) (p q : Location) :
    Alongside (fun _ _ => True) ((follow ms p).answer reference definition)
      ((follow ns q).answer reference definition) := by
  have htarget := h.target
  unfold follow
  generalize Keywords.reference? ms = o at htarget ⊢
  generalize Keywords.reference? ns = o' at htarget ⊢
  cases o with
  | none => cases o' with | none => exact .ok trivial | some ref' => cases htarget
  | some ref =>
    cases o' with
    | none => cases htarget
    | some ref' => exact (hreference ref ref' p q (Option.some.inj htarget)).bind fun _ _ _ => .ok trivial

include hdefinition

/-- **A schema is parsed to the same node anywhere**, but for what says where that stands. -/
theorem script_anywhere (h : SameReference ms ns) (name name' : Json) (isRequired isRequired' : Bool) {p q : Location}
    (hp : Apart linked p) (hq : Apart linked q) :
    Alongside (fun n m => n.withInfo Info.unplaced = m.withInfo Info.unplaced)
      ((script linked (.obj ms) name isRequired p).answer reference definition)
      ((script linked (.obj ns) name' isRequired' q).answer reference definition) := by
  have hplaces : ∀ ref p q, Alongside Eq (reference ref p) (reference ref q) := fun ref p q =>
    hreference ref ref p q rfl
  unfold script parsePart
  simp only [view_raw, shape_of_sameReference h]
  refine Script.alongside_bind (follow_anywhere hreference h p q) fun _ _ _ => ?_
  have htypes : typesAt ms p = typesAt ns p := by rw [typesAt, typesAt, h.types]
  rw [htypes]
  refine Script.alongside_bind ((typesAt_alike ns p q).alongside hplaces hdefinition) ?_
  rintro ts _ rfl
  refine Script.alongside_bind ((shape_alike linked linked (.obj ns) ts p q hp hq).alongside hplaces hdefinition) ?_
  rintro n _ rfl
  rw [h.describe]
  exact .ok (unplaced_describe ts name name' isRequired isRequired' n)

end

/-! ## Proper nodes -/

/-- What is shown of shapes, but for that of the root with its custom types: they are blank, and proper if the schema
is. -/
def ProperShape (c : Bool) (ms : Members) (_ : List RawType) (n : Node) : Prop :=
  c = false → (Json.obj ms).Proper → n.Blank ∧ n.Proper

theorem proper_blank (ref : Option String) : ({ refName := ref } : Info).Proper where
  name := .str ""
  identifierName := fun _ h => by cases h
  description := fun _ h => by cases h
  keywords := .obj .nil fun _ h => absurd h List.not_mem_nil

theorem proper_schemasIn (h : (Json.obj ms).Proper) (key : String) :
    ((schemasIn ms key).map Prod.fst).Nodup ∧ ∀ e ∈ schemasIn ms key, e.2.Proper := by
  unfold schemasIn membersIn
  split
  · next ds hds =>
    cases h.of_lookup hds with
    | obj hkeys hproper =>
      exact ⟨hkeys.sublist (List.filter_sublist.map _), fun e he => hproper e (List.mem_filter.1 he).1⟩
  · exact ⟨.nil, fun _ he => absurd he List.not_mem_nil⟩

variable {n : Node} {D : String → Node → Prop}

theorem Made.InFull.proper {v name : Json} {isRequired : Bool}
    (h : Made.InFull (ProperShape false) v name isRequired n) (hv : v.Proper) (hname : name.Proper) : n.Proper := by
  obtain ⟨ms, ts, m, rfl, -, hm, rfl⟩ := h.described
  obtain ⟨hblank, hproper⟩ := hm rfl hv
  exact Keywords.proper_describe hv hproper hblank ts hname isRequired

theorem Made.Item.proper {v : Json} (h : Made.Item (ProperShape false) v n) (hv : v.Proper) : n.Proper := by
  cases h with
  | reference _ h => exact h.proper hv .null
  | shape _ _ h => exact (h rfl hv).2

theorem ItemsOf.proper {v : Json} (h : Sourced.ItemsOf ms v) (hms : (Json.obj ms).Proper) : v.Proper := by
  cases h with
  | one h => exact hms.of_lookup h
  | several h => exact hms.of_lookup h
  | sole h hv =>
    have hmem := List.mem_filter.1 (hv ▸ List.mem_singleton_self _)
    exact (hms.of_lookup h).of_mem hmem.1

theorem Made.Items.proper {ref : Option String} (h : Made.Items (ProperShape false) ms ref n)
    (hms : (Json.obj ms).Proper) : n.Proper := by
  have hnone : Node.ProperEnum none := fun _ h => by cases h
  cases h with
  | anything => exact .primitive (proper_blank none) hnone
  | reference hv _ h => exact h.proper (ItemsOf.proper hv hms) .null
  | untyped hv _ h | shape hv _ _ h => exact (h rfl (ItemsOf.proper hv hms)).2
  | several hv _ h =>
    refine .union (proper_blank none) (fun m hm => ?_) hnone
    obtain ⟨v, hmem, hitem⟩ := Sourced.exists_related h hm
    exact hitem.proper ((ItemsOf.proper hv hms).of_mem (List.mem_filter.1 hmem).1)

theorem Made.AsType.proper {t : RawType} (h : Made.AsType (ProperShape false) D false ms t n)
    (hms : (Json.obj ms).Proper) : n.Proper := by
  cases h with
  | primitive =>
    refine .primitive (proper_blank none) ?_
    split
    · rintro _ ⟨⟩ v hv
      rw [List.mem_singleton.1 hv]
      exact .null
    · exact Keywords.proper_enum? hms
  | array h => exact .array (proper_blank _) (h.proper hms)
  | object _ hps hds =>
    cases hds with
    | own hds =>
      obtain ⟨hkeys, hdefs⟩ := proper_schemasIn hms "$defs"
      obtain ⟨-, hproperties⟩ := proper_schemasIn hms "properties"
      refine .object (proper_blank none) (fun p hp => ?_) ?_ fun d hd => ?_
      · obtain ⟨e, he, hfull⟩ := Sourced.exists_related hps hp
        exact hfull.proper (hproperties e he) (.str e.1)
      · rwa [← Sourced.map_eq_of_related hds fun _ _ hd => hd.1.symm]
      · obtain ⟨e, he, -, hfull⟩ := Sourced.exists_related hds hd
        exact hfull.proper (hdefs e he) (.str e.1)

/-- **The rules keep shapes proper.** -/
theorem Made.Shape.proper {c : Bool} {ts : List RawType} (h : Made.Shape (ProperShape false) D c ms ts n) :
    ProperShape c ms ts n := by
  rintro rfl hms
  refine ⟨h.blank, ?_⟩
  cases h with
  | any =>
    refine .primitive (proper_blank none) ?_
    split
    · rintro _ ⟨⟩ v hv
      rw [List.mem_singleton.1 hv]
      exact .null
    · exact Keywords.proper_enum? hms
  | one _ h => exact h.proper hms
  | several _ h =>
    refine .union (proper_blank none) (fun m hm => ?_) (Keywords.proper_enum? hms)
    obtain ⟨t, -, htype⟩ := Sourced.exists_related h hm
    exact htype.proper hms

/-- What is written onto a shape does not tell its place from others, and has the shape of itself if the schema is
proper. -/
theorem sameShape_describe {ts : List RawType} (h : ProperShape false ms ts n) (hms : (Json.obj ms).Proper)
    (name : Json) (isRequired : Bool) :
    (Keywords.describe ms ts name isRequired n).sameShape (Keywords.describe ms ts name isRequired n) = true := by
  obtain ⟨hblank, hproper⟩ := h rfl hms
  rw [Node.sameShape, unplaced_describe ts name .null isRequired false n]
  exact Node.sameShape_self (Keywords.proper_describe hms hproper hblank ts .null false)

/-! ## Parses -/

/-- **The same node, wherever it stands**: equal but for its own name and whether it is required, and of one shape if
its schema is proper. -/
def SameNode (raw : Json) (n m : Node) : Prop :=
  n.withInfo Info.unplaced = m.withInfo Info.unplaced ∧ (raw.Proper → n.sameShape m = true)

theorem sameNode_of_alongside {raw : Json} {x y : Except Fault Node}
    (h : Alongside (fun n m => n.withInfo Info.unplaced = m.withInfo Info.unplaced) x y)
    (hx : ∀ n, x = .ok n → raw.Proper → n.sameShape n = true) : Alongside (SameNode raw) x y := by
  refine (h.and_left hx).imp ?_
  rintro n m ⟨hself, hsame⟩
  refine ⟨hsame, fun hraw => ?_⟩
  rw [Node.sameShape, ← hsame]
  exact hself hraw

variable {raw name : Json} {isRequired : Bool} {path : Location}

theorem parse_sameShape {l : Ledger} (h : (parse none raw name isRequired path).outcome l = .ok n) (hraw : raw.Proper) :
    n.sameShape n = true := by
  obtain ⟨ms, ts, m, rfl, -, hm, rfl⟩ := parse_results (S := ProperShape) (D := fun _ _ => True)
    (fun _ _ _ _ => Made.Shape.proper) h
  exact sameShape_describe hm hraw name isRequired

end Parser

namespace Resolver

open TrackingPlan.Parser (SameNode)

variable {r : Resolver} {raw name : Json} {isRequired : Bool} {path : Location} {n : Node}

theorem parse_sameShape (hpath : path ≠ Pointer.root) {l : Ledger} (hl : r.Valid l)
    (h : (r.parse raw name isRequired path).outcome l = .ok n) (hraw : raw.Proper) : n.sameShape n = true := by
  obtain ⟨ms, ts, m, rfl, -, hm, rfl⟩ := parse_results (S := Parser.ProperShape) (D := fun _ _ => True)
    (fun _ _ _ _ => trivial) (fun _ _ _ _ => Parser.Made.Shape.proper) hl h
  rw [Parser.takesCustomTypes_of_apart fun hroot => hpath hroot.2] at hm
  exact Parser.sameShape_describe hm hraw name isRequired

theorem valueWithin_anywhere (depth : Nat) (ids : List DefId) (id : DefId) (p q : Location) :
    Alongside Eq (r.valueWithin depth ids id p) (r.valueWithin depth ids id q) :=
  .of_ok_iff fun _ => ⟨valueWithin_place, valueWithin_place⟩

/-- A reference has the value of its custom type, wherever it stands and however it is written. -/
theorem referenceValue_anywhere (depth : Nat) (ids : List DefId) {ref ref' : String} (p q : Location)
    (h : Pointer.target? ref = Pointer.target? ref') :
    Alongside Eq (r.referenceValue (r.valueWithin depth) ids ref p)
      (r.referenceValue (r.valueWithin depth) ids ref' q) := by
  unfold referenceValue
  rw [h]
  cases Pointer.target? ref' with
  | none => exact .error _ _
  | some k =>
    simp only
    cases r.definitions.find? (.key k) with
    | error f => exact .error f f
    | ok d =>
      cases d with
      | none => exact .error _ _
      | some d =>
        cases d with
        | bool b => exact .error _ _
        | _ => exact valueWithin_anywhere depth ids (.key k) p q

/-- **Two schemas that are parsed alike anywhere**: plainly under any two names and at any two places, and with the
resolver apart from the root, whatever it was used for before. -/
def ParsedAlike (r : Resolver) (raw raw' : Json) : Prop :=
  ∀ (name name' : Json) (isRequired isRequired' : Bool) (path path' : Location),
    (∀ l l', Alongside (SameNode raw) ((Parser.parse none raw name isRequired path).outcome l)
      ((Parser.parse none raw' name' isRequired' path').outcome l')) ∧
    (path ≠ Pointer.root → path' ≠ Pointer.root → ∀ calls calls',
      Alongside (SameNode raw) ((r.parse raw name isRequired path).outcome (r.performAll calls))
        ((r.parse raw' name' isRequired' path').outcome (r.performAll calls')))

theorem parsedAlike_of_sameReference (r : Resolver) {ms ns : Members} (h : SameReference ms ns) :
    r.ParsedAlike (.obj ms) (.obj ns) := by
  intro name name' isRequired isRequired' path path'
  constructor
  · intro l l'
    refine Parser.sameNode_of_alongside ?_ fun n hn => Parser.parse_sameShape hn
    rw [Parser.outcome_parse_plain, Parser.outcome_parse_plain]
    exact Parser.script_anywhere (fun _ _ _ _ _ => .ok rfl) (fun _ _ _ => .ok rfl) h name name' isRequired isRequired'
      (Parser.apart_plain path) (Parser.apart_plain path')
  · intro hpath hpath' calls calls'
    obtain ⟨hvalid, hnone⟩ := r.valid_performAll calls
    obtain ⟨hvalid', hnone'⟩ := r.valid_performAll calls'
    refine Parser.sameNode_of_alongside ?_ fun n hn => parse_sameShape hpath hvalid hn
    rw [outcome_parse hvalid hnone, outcome_parse hvalid' hnone']
    refine Parser.script_anywhere (fun ref ref' p q ht => ?_) (fun key p q => ?_) h name name' isRequired isRequired'
      (fun hroot => hpath hroot.2) (fun hroot => hpath' hroot.2)
    · exact (referenceValue_anywhere _ _ p q ht).map fun _ _ _ => rfl
    · exact valueWithin_anywhere _ _ (.key key) p q

/-- **A schema means the same wherever it occurs.**  Parses of it under two names, required or not, and at two places
both succeed or both fail, and then their nodes are the same but for that name and flag; they have one shape if the
schema is proper.  It is so with a resolver too, apart from the root.  And so are two references to one custom type. -/
theorem parse_anywhere (r : Resolver) :
    (∀ raw, r.ParsedAlike raw raw) ∧ ∀ ms ns, SameReference ms ns → r.ParsedAlike (.obj ms) (.obj ns) := by
  refine ⟨fun raw => ?_, fun _ _ => r.parsedAlike_of_sameReference⟩
  cases raw with
  | obj ms => exact r.parsedAlike_of_sameReference (.refl ms)
  | _ => exact fun _ _ _ _ _ _ => ⟨fun _ _ => .error _ _, fun _ _ _ _ => .error _ _⟩

/-- The items of a list whose reference ends with a line break. -/
def chainedItems : Node := .primitive { isNullable := true, refName := some "Id" } .any none

theorem chained_parses_items :
    (chained.parse (.obj [("$ref", .str "#/$defs/Id\n")]) .null false "#/items").outcome (chained.performAll []) =
      .ok chainedItems := by
  decide +kernel

/-- A property and the items of a list, parsed with a used and with a fresh resolver, have the shape of the definition
that both refer to. -/
theorem parse_anywhere_chained :
    "#/properties/id" ≠ Pointer.root ∧ "#/items" ≠ Pointer.root ∧
      SameReference [("$ref", .str "#/$defs/Id")] [("$ref", .str "#/$defs/Id\n")] ∧ chainedReference.Proper ∧
      chainedProperty.sameShape chainedItems = true := by
  have hproperty : "#/properties/id" ≠ Pointer.root := by decide
  have hitems : "#/items" ≠ Pointer.root := by decide
  have hsame : SameReference [("$ref", .str "#/$defs/Id")] [("$ref", .str "#/$defs/Id\n")] := by
    refine ⟨fun key hkey => ?_, by decide⟩
    rw [List.lookup_cons, List.lookup_cons, beq_false_of_ne hkey]
  have hproper : chainedReference.Proper :=
    .obj (List.nodup_singleton _) fun e he => List.mem_singleton.1 he ▸ .str _
  obtain ⟨-, halike⟩ := (parse_anywhere chained).2 _ _ hsame (.str "id") .null true false "#/properties/id" "#/items"
  obtain ⟨-, hshape⟩ := (halike hproperty hitems [.all] []).related chained_parses chained_parses_items
  exact ⟨hproperty, hitems, hsame, hproper, hshape hproper⟩

end Resolver
end TrackingPlan
