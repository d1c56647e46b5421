import TrackingPlan.Proofs.Parser.Site
import TrackingPlan.Proofs.Script.Alike
/-!
# Elsewhere — a schema is parsed alike wherever it stands

Where a schema stands shows in requests, notes and faults, but not in its node: but for the definitions at the root,
which a linked parse takes for custom types, two parses of one schema at different places are alike, and so are a
linked one and a plain one (`script_alike`).  There is one statement for each part of a parse; what is said of the
shapes of smaller values is assumed there, and in the end shown for all.
-/
namespace TrackingPlan
namespace Parser

open Keywords (Members)
open Script (Alike)

/-- A place whose definitions are no custom types. -/
def Apart (linked : Bool) (path : Location) : Prop := ¬(linked ∧ path = Pointer.root)

variable {linked linked' : Bool}

/-- Without a resolver every place is as if apart from the root. -/
theorem apart_plain (path : Location) : Apart false path := fun h => by cases h.1

theorem apart_append (p step rest : String) (h : 1 < step.length) : Apart linked (p ++ step ++ rest) := by
  rintro ⟨-, he⟩
  have hlen := congrArg String.length he
  rw [String.length_append, String.length_append] at hlen
  have hroot : Pointer.root.length = 1 := rfl
  omega

theorem apart_property (p k : String) : Apart linked (Pointer.property p k) := apart_append _ _ _ (by decide)
theorem apart_definition (p k : String) : Apart linked (Pointer.definition p k) := apart_append _ _ _ (by decide)
theorem apart_item (p : String) (i : Nat) : Apart linked (Pointer.item p i) := apart_append _ _ _ (by decide)

theorem apart_items (p : String) : Apart linked (Pointer.items p) := by
  have h := @apart_append linked p "/items" "" (by decide)
  rwa [String.append_empty] at h

/-- **The shape of a value is alike** in two parses, apart from the root. -/
def ShapeAlike (linked linked' : Bool) (v : Json) : Prop :=
  ∀ (types : List RawType) (p q : Location), Apart linked p → Apart linked' q →
    Alike Eq ((view linked v).shape types p) ((view linked' v).shape types q)

/-! ## Parts -/

theorem typesAt_alike (ms : Members) (p q : Location) : Alike Eq (typesAt ms p) (typesAt ms q) := by
  unfold typesAt
  cases Keywords.types ms with
  | ok ts => exact .done rfl
  | error v => exact .fail _ _

theorem follow_alike (ms : Members) (p q : Location) : Alike Eq (follow ms p) (follow ms q) := by
  unfold follow
  cases Keywords.reference? ms with
  | some ref => exact .reference (.done rfl)
  | none => exact .done rfl

theorem parsePart_alike {v : Json} (h : ShapeAlike linked linked' v) (name : Json) (isRequired : Bool) {p q : Location}
    (hp : Apart linked p) (hq : Apart linked' q) :
    Alike Eq (parsePart (view linked v).toPart name isRequired p)
      (parsePart (view linked' v).toPart name isRequired q) := by
  unfold parsePart
  rw [view_raw, view_raw]
  cases v with
  | obj ms =>
    refine (follow_alike ms p q).bind fun _ _ _ => (typesAt_alike ms p q).bind ?_
    rintro types _ rfl
    refine (h types p q hp hq).bind ?_
    rintro n _ rfl
    exact .pure rfl
  | _ => exact .fail _ _

theorem enumAt_alike (ms : Members) (p q : Location) : Alike Eq (enumAt ms p) (enumAt ms q) := by
  refine Alike.bind (R := Eq) ?_ fun _ _ _ => .pure rfl
  unfold noteDropped
  split
  · exact .done rfl
  · exact .note (.done rfl)

/-! ## Objects -/

/-- The members of an object as parts. -/
abbrev parts (linked : Bool) (ms : Members) : List (String × Part) := ms.map (fun e => (e.1, (view linked e.2).toPart))

theorem parseProperties_alike (required : List String) (p q : Location) : ∀ {ms : Members},
    (∀ e ∈ ms, ShapeAlike linked linked' e.2) →
      Alike Eq (parseProperties required p (parts linked ms)) (parseProperties required q (parts linked' ms))
  | [], _ => .done rfl
  | (k, v) :: rest, h => by
    have hrest := parseProperties_alike required p q (fun e he => h e (List.mem_cons_of_mem _ he))
    rw [parts, parts, List.map_cons, List.map_cons, parseProperties, parseProperties]
    simp only [view_raw]
    split
    · exact hrest
    · refine (parsePart_alike (h _ List.mem_cons_self) _ _ (apart_property p k) (apart_property q k)).bind ?_
      rintro n _ rfl
      refine hrest.bind ?_
      rintro ns _ rfl
      exact .pure rfl

theorem parseDefinitions_alike {p q : Location} (hp : Apart linked p) (hq : Apart linked' q) : ∀ {ms : Members},
    (∀ e ∈ ms, ShapeAlike linked linked' e.2) →
      Alike Eq (parseDefinitions linked p (parts linked ms)) (parseDefinitions linked' q (parts linked' ms))
  | [], _ => .done rfl
  | (k, v) :: rest, h => by
    have hrest := parseDefinitions_alike hp hq (fun e he => h e (List.mem_cons_of_mem _ he))
    rw [parts, parts, List.map_cons, List.map_cons, parseDefinitions, parseDefinitions]
    simp only [view_raw]
    split
    · exact .note hrest
    · rw [parseDefinition, if_neg hp, parseDefinition, if_neg hq]
      refine (parsePart_alike (h _ List.mem_cons_self) _ _ (apart_definition p k) (apart_definition q k)).bind ?_
      rintro n _ rfl
      refine hrest.bind ?_
      rintro ns _ rfl
      exact .pure rfl

/-- What a keyword holds by name does not hang on the parse. -/
theorem membersOf_alike (ms : Members) (key : String) :
    Alike (fun ps qs => ps = parts linked (membersIn ms key) ∧ qs = parts linked' (membersIn ms key))
      (Script.ofExcept (membersOf ((ms.lookup key).map (view linked))))
      (Script.ofExcept (membersOf ((ms.lookup key).map (view linked')))) := by
  cases h : membersOf ((ms.lookup key).map (view linked)) with
  | ok ps =>
    obtain ⟨hps, hgiven⟩ := membersOf_ok h
    cases h' : membersOf ((ms.lookup key).map (view linked')) with
    | ok qs => exact .done ⟨hps, (membersOf_ok h').1⟩
    | error f =>
      obtain ⟨-, v, hl, ho, hg⟩ := membersOf_error h'
      rw [hgiven v hl ho] at hg
      cases hg
  | error f =>
    obtain ⟨-, v, hl, ho, hg⟩ := membersOf_error h
    cases h' : membersOf ((ms.lookup key).map (view linked')) with
    | ok qs =>
      rw [(membersOf_ok h').2 v hl ho] at hg
      cases hg
    | error f' => exact .fail f f'

section

variable {ms : Members} (hms : ∀ v, sizeOf v < sizeOf (Json.obj ms) → ShapeAlike linked linked' v)

include hms

theorem objectShape_alike {p q : Location} (hp : Apart linked p) (hq : Apart linked' q) :
    Alike Eq (objectShape linked ms (ms.map (fun e => (e.1, view linked e.2))) p)
      (objectShape linked' ms (ms.map (fun e => (e.1, view linked' e.2))) q) := by
  have hmember : ∀ key, ∀ e ∈ membersIn ms key, ShapeAlike linked linked' e.2 := fun key e he =>
    hms e.2 (sizeOf_membersIn he)
  unfold objectShape
  simp only [lookup_views]
  refine (Alike.ofExcept_self _).bind ?_
  rintro required _ rfl
  refine (membersOf_alike ms "properties").bind ?_
  rintro _ _ ⟨rfl, rfl⟩
  refine (parseProperties_alike required p q (hmember _)).bind ?_
  rintro nodes _ rfl
  refine (membersOf_alike ms "$defs").bind ?_
  rintro _ _ ⟨rfl, rfl⟩
  refine (parseDefinitions_alike hp hq (hmember _)).bind ?_
  rintro defs _ rfl
  exact .pure rfl

end

/-! ## Arrays -/

theorem parseItem_alike {v : Json} (h : ShapeAlike linked linked' v) {p q : Location} (hp : Apart linked p)
    (hq : Apart linked' q) :
    Alike Eq (parseItem (view linked v).toPart p) (parseItem (view linked' v).toPart q) := by
  unfold parseItem
  simp only [view_raw]
  split
  · next ms =>
    split
    · exact parsePart_alike h _ _ hp hq
    · refine (typesAt_alike ms p q).bind ?_
      rintro types _ rfl
      exact h types p q hp hq
  · exact parsePart_alike h _ _ hp hq

theorem singleItem_alike {v : Json} (h : ShapeAlike linked linked' v) {p q : Location} (hp : Apart linked p)
    (hq : Apart linked' q) :
    Alike Eq (singleItem (view linked v).toPart p) (singleItem (view linked' v).toPart q) := by
  unfold singleItem
  simp only [view_raw]
  split
  · split
    · refine (parsePart_alike h _ _ hp hq).bind ?_
      rintro n _ rfl
      exact .pure rfl
    · split
      · refine (h _ p q hp hq).bind ?_
        rintro n _ rfl
        exact .pure rfl
      · refine (parseItem_alike h hp hq).bind ?_
        rintro n _ rfl
        exact .pure rfl
  · exact .pure rfl

/-- **Item lists of the same schemas**, each at a place of its own. -/
inductive SameEntries (linked linked' : Bool) : List (Location × Part) → List (Location × Part) → Prop where
  | nil : SameEntries linked linked' [] []
  | cons {v p q es es'} (h : ShapeAlike linked linked' v) (hp : Apart linked p) (hq : Apart linked' q)
    (hes : SameEntries linked linked' es es') :
    SameEntries linked linked' ((p, (view linked v).toPart) :: es) ((q, (view linked' v).toPart) :: es')

theorem schemaEntries_same (p q : Location) : ∀ {vs : List Json} (m n : Nat), (∀ v ∈ vs, ShapeAlike linked linked' v) →
    SameEntries linked linked' (schemaEntries p m (vs.map (fun v => (view linked v).toPart)))
      (schemaEntries q n (vs.map (fun v => (view linked' v).toPart)))
  | [], _, _, _ => .nil
  | v :: vs, m, n, h => by
    have hrest := schemaEntries_same p q (m + 1) (n + 1) (fun w hw => h w (List.mem_cons_of_mem _ hw))
    rw [List.map_cons, List.map_cons, schemaEntries, schemaEntries, view_raw, view_raw]
    split
    · exact .cons (h v List.mem_cons_self) (apart_item p m) (apart_item q n) hrest
    · exact hrest

theorem parseItems_alike {es es' : List (Location × Part)} (h : SameEntries linked linked' es es') :
    Alike Eq (parseItems es) (parseItems es') := by
  induction h with
  | nil => exact .done rfl
  | cons h hp hq _ ih =>
    refine (parseItem_alike h hp hq).bind ?_
    rintro n _ rfl
    refine ih.bind ?_
    rintro ns _ rfl
    exact .pure rfl

theorem listShape_alike {es es' : List (Location × Part)} (h : SameEntries linked linked' es es') :
    Alike Eq (listShape es) (listShape es') := by
  cases h with
  | nil => exact .done rfl
  | cons h hp hq hes =>
    cases hes with
    | nil => exact singleItem_alike h hp hq
    | cons h' hp' hq' hes =>
      refine (parseItems_alike (.cons h hp hq (.cons h' hp' hq' hes))).bind ?_
      rintro ns _ rfl
      exact .pure rfl

/-! ## Whole shapes -/

section

variable {ms : Members} (hms : ∀ v, sizeOf v < sizeOf (Json.obj ms) → ShapeAlike linked linked' v)

include hms

theorem arrayShape_alike (p q : Location) :
    Alike Eq (arrayShape ((ms.map (fun e => (e.1, view linked e.2))).lookup "items") p)
      (arrayShape ((ms.map (fun e => (e.1, view linked' e.2))).lookup "items") q) := by
  rw [lookup_views, lookup_views]
  cases hl : ms.lookup "items" with
  | none => exact .done rfl
  | some v =>
    cases v with
    | obj is => exact singleItem_alike (hms _ (sizeOf_lookup hl)) (apart_items p) (apart_items q)
    | arr vs =>
      rw [Option.map_some, Option.map_some, arrayShape, arrayShape, view_raw, view_raw, entries_view_arr,
        entries_view_arr]
      exact listShape_alike (schemaEntries_same p q 0 0 fun v hv =>
        hms v (Nat.lt_trans (sizeOf_item hv) (sizeOf_lookup hl)))
    | _ => exact .done rfl

omit hms in
theorem primitiveShape_alike (ms : Members) (types : List RawType) (k : Primitive) (p q : Location) :
    Alike Eq (primitiveShape ms types k p) (primitiveShape ms types k q) := by
  refine (enumAt_alike ms p q).bind ?_
  rintro e _ rfl
  exact .pure rfl

theorem memberShape_alike {p q : Location} (hp : Apart linked p) (hq : Apart linked' q) (t : RawType) :
    Alike Eq (memberShape linked ms (ms.map (fun e => (e.1, view linked e.2))) p t)
      (memberShape linked' ms (ms.map (fun e => (e.1, view linked' e.2))) q t) := by
  cases t with
  | object => exact objectShape_alike hms hp hq
  | array => exact arrayShape_alike hms p q
  | _ => exact primitiveShape_alike ms _ _ p q

theorem parseMembers_alike {p q : Location} (hp : Apart linked p) (hq : Apart linked' q) : ∀ ts : List RawType,
    Alike Eq (parseMembers linked ms (ms.map (fun e => (e.1, view linked e.2))) p ts)
      (parseMembers linked' ms (ms.map (fun e => (e.1, view linked' e.2))) q ts)
  | [] => .done rfl
  | t :: ts => by
    refine (memberShape_alike hms hp hq t).bind ?_
    rintro n _ rfl
    refine (parseMembers_alike hp hq ts).bind ?_
    rintro ns _ rfl
    exact .pure rfl

theorem shapeOf_alike (types : List RawType) {p q : Location} (hp : Apart linked p) (hq : Apart linked' q) :
    Alike Eq (shapeOf linked ms (ms.map (fun e => (e.1, view linked e.2))) types p)
      (shapeOf linked' ms (ms.map (fun e => (e.1, view linked' e.2))) types q) := by
  unfold shapeOf
  split
  · exact primitiveShape_alike ms types .any p q
  · exact memberShape_alike hms hp hq _
  · refine (parseMembers_alike hms hp hq _).bind ?_
    rintro ns _ rfl
    refine (enumAt_alike ms p q).bind ?_
    rintro e _ rfl
    exact .pure rfl

end

/-- **The shape of every value is alike** in any two parses, by induction on the value. -/
theorem shape_alike (linked linked' : Bool) : ∀ v : Json, ShapeAlike linked linked' v
  | .obj ms => fun types p q hp hq => by
    rw [shape_view_obj, shape_view_obj]
    exact shapeOf_alike (fun v _ => shape_alike linked linked' v) types hp hq
  | .null | .bool _ | .int _ | .float _ | .str _ | .arr _ => fun types p q _ _ => primitiveShape_alike [] types .any p q
termination_by v => sizeOf v
decreasing_by assumption

/-- **Apart from the root, a schema is parsed alike at all places**, linked or not. -/
theorem script_alike (raw name : Json) (isRequired : Bool) {p q : Location} (hp : Apart linked p)
    (hq : Apart linked' q) : Alike Eq (script linked raw name isRequired p) (script linked' raw name isRequired q) :=
  parsePart_alike (shape_alike linked linked' raw) name isRequired hp hq

end Parser
end TrackingPlan
