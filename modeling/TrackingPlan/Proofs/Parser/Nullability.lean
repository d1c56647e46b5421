import TrackingPlan.Proofs.Parser.Properties
/-!
# Nullability — which items of an array are nullable

Nullability is written onto a node with the rest of its metadata, and of the items of an array only references are
parsed with that.  So an item is nullable just when it is a reference and its schema admits null
(`items_nullable_iff`); whatever else admits null, such as `{"type": ["string", "null"]}`, is a node that does not
(`nullability_lost`).
-/
namespace TrackingPlan
namespace Parser

open Keywords (Members)
open Sourced (ItemsOf)

variable {ms is : Members} {n : Node}

theorem isNullable_describe (ts : List RawType) (name : Json) (isRequired : Bool) (m : Node) :
    (Keywords.describe is ts name isRequired m).info.isNullable = Keywords.admitsNull is ts := by
  unfold Keywords.describe
  rw [Node.info_withInfo]

theorem types_of_isUntyped (h : isUntyped is = true) : Keywords.reference? is = none ∧ Keywords.types is = .ok [] := by
  simp only [isUntyped, isTypeless, Bool.and_eq_true, Option.isNone_iff_eq_none] at h
  obtain ⟨href, -, htype⟩ := h
  refine ⟨href, ?_⟩
  unfold Keywords.types
  rw [htype]

/-- The items that one schema stands for are nullable as a reference only. -/
theorem Made.Items.isNullable_eq {ref : Option String} (h : Made.Items (fun _ _ m => m.Blank) ms ref n)
    (his : ItemsOf ms (.obj is)) : ∃ ts, Keywords.types is = .ok ts ∧
      n.info.isNullable = ((Keywords.reference? is).isSome && Keywords.admitsNull is ts) := by
  cases h with
  | anything h => exact absurd his (h _)
  | reference his' href h =>
    cases his.unique his'
    obtain ⟨_, ts, m, he, hts, -, rfl⟩ := h.described
    cases he
    refine ⟨ts, hts, ?_⟩
    rw [isNullable_describe, href, Bool.true_and]
  | untyped his' hu h =>
    cases his.unique his'
    obtain ⟨href, hts⟩ := types_of_isUntyped hu
    refine ⟨[], hts, ?_⟩
    rw [h.isNullable_eq, href]
    rfl
  | @shape _ ts _ his' href hts h =>
    cases his.unique his'
    refine ⟨ts, hts, ?_⟩
    rw [h.isNullable_eq, href]
    rfl
  | several his' => cases his.unique his'

/-- An array that is put together from its source has the items of that source. -/
theorem Assembled.items {D : String → Node → Prop} {c : Bool} {v : Json} {i : Info}
    (h : Assembled D c v (.array i n)) : ∃ ms, v = .obj ms ∧ Made.Items (fun _ _ m => m.Blank) ms i.refName n := by
  have htype : ∀ {ms t}, Made.AsType (fun _ _ m => m.Blank) D c ms t (.array i n) →
      Made.Items (fun _ _ m => m.Blank) ms i.refName n := by
    intro ms t h
    cases h with
    | array h => exact h
  cases h with
  | asType h => exact ⟨_, rfl, htype h⟩
  | schema h =>
    cases h with
    | one _ h => exact ⟨_, rfl, htype h⟩

/-- **The items of an array are nullable as a reference only.**  In a parsed node, every array has a source; and where
its items are one schema, they are nullable just when that schema is a reference and admits null. -/
theorem items_nullable_iff {declares : String → Json → Prop} {s : Sourced} (h : Parsed declares s) :
    (∀ m, s.node.Contains m → m.kind? = some .array → ∃ t, s.Reaches declares t ∧ t.node = m) ∧
    ∀ t, s.Reaches declares t → ∀ i n, t.node = .array i n → ∃ ms, t.raw = .obj ms ∧ ∀ is, ItemsOf ms (.obj is) →
      ∃ ts, Keywords.types is = .ok ts ∧
        (n.info.isNullable = true ↔ (Keywords.reference? is).isSome ∧ Keywords.admitsNull is ts = true) := by
  refine ⟨fun m hm hkind => h.grounded.faithful.covers hm ?_, fun t ht i n hnode => ?_⟩
  · rintro rfl
    cases hkind
  · obtain ⟨node, f, he, hassembled⟩ := h.grounded t ht
    rw [hnode] at he
    cases node with
    | array j m =>
      cases he
      obtain ⟨ms, hraw, hitems⟩ := hassembled.items
      refine ⟨ms, hraw, fun is his => ?_⟩
      obtain ⟨ts, hts, hnullable⟩ := hitems.isNullable_eq his
      refine ⟨ts, hts, ?_⟩
      rw [hnullable, Bool.and_eq_true]
    | _ => cases he

/-- The keywords of an item that is a text or null. -/
def textOrNull : Members := [("type", .arr [.str "string", .str "null"])]

/-- An array of arrays of references, as the keywords of both arrays. -/
def rowOfReferences : Members := [("type", .str "array"), ("items", .obj [("$ref", .str "#/$defs/Tag")])]
def table : Members := [("type", .str "array"), ("items", .obj rowOfReferences)]

def reference : Node := .primitive { isNullable := true, refName := some "Tag" } .any none

theorem table_outcome : (parse none (.obj table) .null false Pointer.root).outcome {} =
    .ok (.array {} (.array { refName := some "Tag" } reference)) := by
  rfl

/-- The references in the inner arrays are nullable, and the inner arrays are not. -/
theorem items_nullable_iff_in_table :
    Parsed (fun _ _ => False) ⟨.array {} (.array { refName := some "Tag" } reference), .obj table, false⟩ ∧
      reference.info.isNullable = true := by
  have hparsed : Parsed (fun _ _ => False)
      ⟨.array {} (.array { refName := some "Tag" } reference), .obj table, false⟩ := .plain table_outcome
  refine ⟨hparsed, ?_⟩
  have hinner : Sourced.Reaches (fun _ _ => False)
      ⟨.array {} (.array { refName := some "Tag" } reference), .obj table, false⟩
      ⟨.array { refName := some "Tag" } reference, .obj rowOfReferences, false⟩ := .single (.items rfl)
  obtain ⟨ms, hms, hitems⟩ := (items_nullable_iff hparsed).2 _ hinner _ _ rfl
  cases hms
  obtain ⟨ts, hts, hnullable⟩ := hitems _ (.one rfl)
  cases hts
  exact hnullable.2 ⟨rfl, rfl⟩

/-- **Null is lost from the items of an array**: the schema of the items is of two types, one of them null, and admits
null, but its node does not. -/
theorem nullability_lost : ∃ n,
    (parse none (.obj [("type", .str "array"), ("items", .obj textOrNull)]) .null false Pointer.root).outcome {} =
      .ok (.array {} n) ∧
    Keywords.reference? textOrNull = none ∧ Keywords.types textOrNull = .ok [.string, .null] ∧
    Keywords.admitsNull textOrNull [.string, .null] = true ∧ n.info.isNullable = false :=
  ⟨.primitive {} .string none, by rfl, rfl, by rfl, rfl, rfl⟩

end Parser
end TrackingPlan
