import Mathlib.Data.List.Induction
import Mathlib.Logic.Relation
import TrackingPlan.Proofs.Json.Scalar
import TrackingPlan.Proofs.Parser.Admission
/-!
# Enum — the scalars of an enum, each where it comes first

Of the values that a schema enumerates (`Enumerates`), a scalar adds to those before it unless it repeats one (`Adds`).
A value that adds nothing leaves the scalars as they are, wherever it stands (`scalars_insert`), and one that does
stands behind those before it (`scalars_concat`).  So, one value after the other, the scalars of an enum are what its
values add, in their order (`gathered_scalars`), and a schema's enum is these (`enum_of_first_scalars`).
-/
namespace TrackingPlan
namespace Keywords

/-- **The values that a schema enumerates as it writes them**: those that `enum` lists, its value if that is no list,
or without it the value of `const`. -/
inductive Enumerates (ms : Members) : List Json → Prop where
  | listed {vs} (h : ms.lookup "enum" = some (.arr vs)) : Enumerates ms vs
  | single {v} (h : ms.lookup "enum" = some v) (hv : ∀ vs, v ≠ .arr vs) : Enumerates ms [v]
  | const {v} (henum : ms.lookup "enum" = none) (h : ms.lookup "const" = some v) : Enumerates ms [v]

/-- A scalar that repeats none of the values before it. -/
def Adds (before : List Json) (v : Json) : Prop := v.isScalar = true ∧ ∀ u ∈ before, ¬v.Repeats u

/-- The value at a place adds to those before it. -/
def AddsAt (vs : List Json) (i : ℕ) : Prop := ∃ v, vs[i]? = some v ∧ Adds (vs.take i) v

/-- **All that the values of a list add**, in the order of the places where they add it and as it stands there. -/
def Gathered (vs ws : List Json) : Prop :=
  ∃ places : List ℕ, places.Pairwise (· < ·) ∧ (∀ i, i ∈ places ↔ AddsAt vs i) ∧ ws.map some = places.map (vs[·]?)

/-- One value more, anywhere: no scalar, or one that repeats a value before it. -/
inductive Stretched : List Json → List Json → Prop where
  | intro {before after v} (h : v.isScalar = false ∨ ∃ u ∈ before, v.Repeats u) :
    Stretched (before ++ after) (before ++ v :: after)

variable {ms : Members} {vs ws before after : List Json} {v w : Json}

/-! ## The values as written -/

theorem rawEnum_eq_some_iff : rawEnum ms = some vs ↔ Enumerates ms vs := by
  constructor
  · intro h
    unfold rawEnum at h
    split at h
    · next us hus => cases h; exact .listed hus
    · next u hnot hu => cases h; exact .single hu hnot
    · next hnone =>
      obtain ⟨u, hu, rfl⟩ := Option.map_eq_some_iff.1 h
      exact .const hnone hu
  · intro h
    unfold rawEnum
    cases h with
    | listed h => rw [h]
    | @single u h hu =>
      rw [h]
      cases u with
      | arr us => exact absurd rfl (hu us)
      | _ => rfl
    | const henum h => rw [henum, h]; rfl

theorem rawEnum_eq_none_iff : rawEnum ms = none ↔ ¬IsEnumerated ms := by
  unfold rawEnum IsEnumerated
  split
  · next hvs => simp [hvs]
  · next hv => simp [hv]
  · next hnone => simp only [hnone, Option.map_eq_none_iff, ne_eq, not_true_eq_false, false_or, not_not]

/-! ## Scalars -/

theorem distinctFrom_append (seen vs ws : List Json) :
    distinctFrom seen (vs ++ ws) =
      distinctFrom seen vs ++ distinctFrom ((distinctFrom seen vs).reverse ++ seen) ws := by
  induction vs generalizing seen with
  | nil => rfl
  | cons v vs ih =>
    rw [List.cons_append, distinctFrom, distinctFrom]
    split
    · exact ih seen
    · rw [ih, List.cons_append, List.reverse_cons, List.append_assoc]
      rfl

theorem scalars_append (vs ws : List Json) :
    scalars (vs ++ ws) = scalars vs ++ distinctFrom (scalars vs).reverse (ws.filter Json.isScalar) := by
  rw [scalars, List.filter_append, distinctFrom_append, List.append_nil]
  rfl

theorem mem_of_mem_scalars (h : w ∈ scalars vs) : w ∈ vs ∧ w.isScalar = true :=
  List.mem_filter.1 (mem_of_distinctFrom h)

/-- A scalar is the same as one of the values exactly when it is the same as one of their scalars. -/
theorem any_scalars_iff : (scalars vs).reverse.any v.sameScalar = true ↔ ∃ u ∈ vs, v.sameScalar u = true := by
  simp only [List.any_reverse, List.any_eq_true]
  constructor
  · rintro ⟨u, hu, hvu⟩
    exact ⟨u, (mem_of_mem_scalars hu).1, hvu⟩
  · rintro ⟨u, hu, hvu⟩
    have hscalar : u.isScalar = true := by cases v <;> cases u <;> first | rfl | cases hvu
    obtain ⟨w, hw, huw⟩ := scalars_covers hscalar hu
    exact ⟨w, hw, Json.sameScalar_trans hvu huw⟩

/-- **A value that adds nothing to those before it leaves the scalars as they are.** -/
theorem scalars_insert (h : v.isScalar = false ∨ ∃ u ∈ before, v.Repeats u) :
    scalars (before ++ v :: after) = scalars (before ++ after) := by
  rw [scalars_append, scalars_append]
  by_cases hscalar : v.isScalar = true
  · obtain ⟨u, hu, hvu⟩ := h.resolve_left (by rw [hscalar]; decide)
    have hseen : (scalars before).reverse.any v.sameScalar = true :=
      any_scalars_iff.2 ⟨u, hu, Json.sameScalar_of_repeats hscalar hvu⟩
    rw [List.filter_cons_of_pos hscalar, distinctFrom, if_pos hseen]
  · rw [List.filter_cons_of_neg hscalar]

/-- **A value that adds to those before it stands behind their scalars.** -/
theorem scalars_concat (h : Adds vs v) (hnumber : ∀ x, v = .float x → x.isNaN = false) :
    scalars (vs ++ [v]) = scalars vs ++ [v] := by
  obtain ⟨hscalar, hnew⟩ := h
  have hseen : ¬(scalars vs).reverse.any v.sameScalar = true := by
    rw [any_scalars_iff]
    rintro ⟨u, hu, hvu⟩
    exact hnew u hu ((Json.sameScalar_iff hscalar hnumber).1 hvu)
  rw [scalars_append, List.filter_cons_of_pos hscalar, List.filter_nil, distinctFrom, if_neg hseen, distinctFrom]

/-! ## What the values add -/

theorem not_adds_iff : ¬Adds before v ↔ v.isScalar = false ∨ ∃ u ∈ before, v.Repeats u := by
  simp [Adds, imp_iff_not_or]

theorem AddsAt.lt {i : ℕ} (h : AddsAt vs i) : i < vs.length := by
  obtain ⟨v, hv, -⟩ := h
  exact (List.getElem?_eq_some_iff.1 hv).1

theorem addsAt_concat_iff {i : ℕ} : AddsAt (vs ++ [v]) i ↔ AddsAt vs i ∨ i = vs.length ∧ Adds vs v := by
  unfold AddsAt
  rcases lt_trichotomy i vs.length with hlt | rfl | hgt
  · rw [List.getElem?_append_left hlt, List.take_append_of_le_length hlt.le]
    simp [hlt.ne]
  · simp
  · have hlen : (vs ++ [v]).length ≤ i := by rw [List.length_append, List.length_singleton]; exact hgt
    rw [List.getElem?_eq_none hlen, List.getElem?_eq_none hgt.le]
    simp [hgt.ne']

theorem gathered_nil : Gathered [] [] := by
  refine ⟨[], .nil, fun i => ⟨fun hi => (by cases hi), fun hi => ?_⟩, rfl⟩
  cases hi.lt

/-- The values that are there at some places, with one value more behind them. -/
theorem map_getElem?_concat {places : List ℕ} (h : ∀ i ∈ places, AddsAt vs i) (v : Json) :
    places.map ((vs ++ [v])[·]?) = places.map (vs[·]?) :=
  List.map_congr_left fun i hi => List.getElem?_append_left (h i hi).lt

theorem Gathered.concat (h : Gathered vs ws) (hv : Adds vs v) : Gathered (vs ++ [v]) (ws ++ [v]) := by
  obtain ⟨places, hsorted, hplaces, hvalues⟩ := h
  refine ⟨places ++ [vs.length], ?_, fun i => ?_, ?_⟩
  · rw [List.pairwise_append]
    refine ⟨hsorted, List.pairwise_singleton .., fun i hi j hj => ?_⟩
    rw [List.mem_singleton.1 hj]
    exact ((hplaces i).1 hi).lt
  · rw [List.mem_append, List.mem_singleton, hplaces, addsAt_concat_iff, and_iff_left hv]
  · rw [List.map_append, List.map_append, map_getElem?_concat fun i => (hplaces i).1, hvalues]
    simp

theorem Gathered.concat_of_not_adds (h : Gathered vs ws) (hv : ¬Adds vs v) : Gathered (vs ++ [v]) ws := by
  obtain ⟨places, hsorted, hplaces, hvalues⟩ := h
  refine ⟨places, hsorted, fun i => ?_, ?_⟩
  · rw [hplaces, addsAt_concat_iff, or_iff_left fun hlast => hv hlast.2]
  · rw [map_getElem?_concat fun i => (hplaces i).1, hvalues]

/-- **The scalars of an enum are what its values add.** -/
theorem gathered_scalars (hnumbers : ∀ x, .float x ∈ vs → x.isNaN = false) : Gathered vs (scalars vs) := by
  -- what a value adds depends on those before it, so the list grows at its end
  induction vs using List.reverseRecOn with
  | nil => exact gathered_nil
  | append_singleton vs v ih =>
    have ih := ih fun x hx => hnumbers x (List.mem_append_left _ hx)
    by_cases hv : Adds vs v
    · have hnumber : ∀ x, v = .float x → x.isNaN = false := fun x hx => hnumbers x (by simp [hx])
      rw [scalars_concat hv hnumber]
      exact ih.concat hv
    · have hsame : scalars (vs ++ [v]) = scalars vs := by rw [scalars_insert (not_adds_iff.1 hv), List.append_nil]
      rw [hsame]
      exact ih.concat_of_not_adds hv

/-- What is added later repeats nothing that was added before. -/
theorem Gathered.pairwise (h : Gathered vs ws) : ws.Pairwise fun u w => ¬w.Repeats u := by
  obtain ⟨places, hsorted, hplaces, hvalues⟩ := h
  have happart : (places.map (vs[·]?)).Pairwise fun o o' => ∀ u w, o = some u → o' = some w → ¬w.Repeats u := by
    rw [List.pairwise_map]
    refine hsorted.imp_of_mem fun {i j} hi hj hij u w hu hw => ?_
    obtain ⟨w', hw', -, hnew⟩ := (hplaces j).1 hj
    cases hw.symm.trans hw'
    refine hnew u (List.mem_iff_getElem?.2 ⟨i, ?_⟩)
    rw [List.getElem?_take_of_lt hij, hu]
  rw [← hvalues, List.pairwise_map] at happart
  exact happart.imp fun h => h _ _ rfl rfl

theorem scalars_of_stretched {us : List Json} (h : Relation.ReflTransGen Stretched vs us) :
    scalars us = scalars vs := by
  induction h with
  | refl => rfl
  | tail _ hone ih =>
    cases hone with
    | intro hnothing => rw [scalars_insert hnothing, ih]

theorem scalars_eq_nil_iff : scalars vs = [] ↔ ∀ v ∈ vs, v.isScalar = false := by
  constructor
  · intro hnil v hv
    rw [← Bool.not_eq_true]
    intro hscalar
    obtain ⟨w, hw, -⟩ := scalars_covers hscalar hv
    rw [hnil] at hw
    cases hw
  · intro h
    rw [List.eq_nil_iff_forall_not_mem]
    intro w hw
    obtain ⟨hmem, hscalar⟩ := mem_of_mem_scalars hw
    exact Bool.false_ne_true ((h w hmem).symm.trans hscalar)

theorem enum?_eq (h : Enumerates ms vs) : enum? ms = if scalars vs = [] then none else some (scalars vs) := by
  rw [enum?, rawEnum_eq_some_iff.2 h]
  simp only [List.isEmpty_iff]

theorem enum?_eq_none_iff : enum? ms = none ↔ ¬IsEnumerated ms ∨ ∀ w, Lists ms w → w.isScalar = false := by
  cases hraw : rawEnum ms with
  | none =>
    have hnone : enum? ms = none := by rw [enum?, hraw]
    exact iff_of_true hnone (.inl (rawEnum_eq_none_iff.1 hraw))
  | some vs =>
    rw [or_iff_right (not_not_intro (isEnumerated_of_rawEnum hraw)), enum?_eq (rawEnum_eq_some_iff.1 hraw)]
    simp only [lists_iff hraw, ← scalars_eq_nil_iff, ite_eq_left_iff, reduceCtorEq, imp_false, not_not]

theorem enumerates_of_enum? (h : enum? ms = some ws) : ∃ vs, Enumerates ms vs ∧ ws = scalars vs := by
  cases hraw : rawEnum ms with
  | none => rw [enum?, hraw] at h; cases h
  | some vs =>
    have hvs := rawEnum_eq_some_iff.1 hraw
    rw [enum?_eq hvs] at h
    split at h
    · cases h
    · cases h
      exact ⟨vs, hvs, rfl⟩

end Keywords

namespace Parser

open Keywords (Members Lists IsEnumerated Enumerates Gathered Stretched)

theorem outcome_enumAt (ms : Members) (path : Location) (links : Links) (l : Ledger) :
    ((enumAt ms path).run links).outcome l = .ok (Keywords.enum? ms) := by
  obtain ⟨enum, houtcome, rfl⟩ := (enumAt_yields ms path).outcome links l
  exact houtcome

/-- **The enum of a schema has each scalar that the schema enumerates once, where it comes first**, and there is none if
there are no such scalars.  What is no scalar and what repeats a value before it make no difference. -/
theorem enum_of_first_scalars {ms : Members} (hnumbers : ∀ x, Lists ms (.float x) → x.isNaN = false) (path : Location) :
    ∃ enum, (∀ links l, ((enumAt ms path).run links).outcome l = .ok enum) ∧
      (∀ ws, enum = some ws → ∃ vs, Enumerates ms vs ∧ Gathered vs ws ∧ ws.Pairwise (fun u w => ¬w.Repeats u) ∧
        ∀ v ∈ vs, v.isScalar = true → ∃ w ∈ ws, v.Repeats w) ∧
      (enum = none ↔ ¬IsEnumerated ms ∨ ∀ w, Lists ms w → w.isScalar = false) ∧
      ∀ ns vs us, Enumerates ms vs → Enumerates ns us → Relation.ReflTransGen Stretched vs us →
        ∀ place links l, ((enumAt ns place).run links).outcome l = .ok enum := by
  refine ⟨Keywords.enum? ms, outcome_enumAt ms path, fun ws hws => ?_, Keywords.enum?_eq_none_iff, ?_⟩
  · obtain ⟨vs, hvs, rfl⟩ := Keywords.enumerates_of_enum? hws
    have hlists {w : Json} : Lists ms w ↔ w ∈ vs := Keywords.lists_iff (Keywords.rawEnum_eq_some_iff.2 hvs)
    have hnumber : ∀ x, .float x ∈ vs → x.isNaN = false := fun x hx => hnumbers x (hlists.2 hx)
    have hgathered := Keywords.gathered_scalars hnumber
    refine ⟨vs, hvs, hgathered, hgathered.pairwise, fun v hv hscalar => ?_⟩
    obtain ⟨w, hw, hvw⟩ := Keywords.scalars_covers hscalar hv
    exact ⟨w, hw, (Json.sameScalar_iff hscalar fun x hx => hnumber x (hx ▸ hv)).1 hvw⟩
  · intro ns vs us hvs hus hstretched place links l
    rw [outcome_enumAt, Keywords.enum?_eq hus, Keywords.enum?_eq hvs, Keywords.scalars_of_stretched hstretched]

/-- One in three types, both zeros, and values that add nothing among them. -/
theorem enum_of_first_scalars_mixed :
    let one : Json := .float ⟨false, 1023, 0⟩
    let vs : List Json := [.bool true, .obj [], .int 1, one, .float (.zero false), .float (.zero true), .int 1]
    let us : List Json := vs ++ [.arr [.null], one]
    let ws : List Json := [.bool true, .int 1, one, .float (.zero false)]
    (∀ x, Lists [("enum", .arr vs)] (.float x) → x.isNaN = false) ∧ Gathered vs ws ∧
      ∀ path links l, ((enumAt [("enum", .arr us)] path).run links).outcome l = .ok (some ws) := by
  intro one vs us ws
  have hnumbers : ∀ x, Lists [("enum", .arr vs)] (.float x) → x.isNaN = false := by
    intro x hx
    have hmem : .float x ∈ vs := hx
    simp only [vs, one, List.mem_cons, reduceCtorEq, Json.float.injEq, List.not_mem_nil, or_false, false_or] at hmem
    rcases hmem with rfl | rfl | rfl <;> rfl
  have hvs : Enumerates [("enum", .arr vs)] vs := .listed rfl
  have hus : Enumerates [("enum", .arr us)] us := .listed rfl
  have hlist : Stretched vs (vs ++ [.arr [.null]]) := @Stretched.intro vs [] _ (.inl rfl)
  have hone : Stretched (vs ++ [.arr [.null]]) us :=
    @Stretched.intro (vs ++ [.arr [.null]]) [] one (.inr ⟨one, by simp [vs], rfl, Json.equal_self (.float rfl)⟩)
  obtain ⟨enum, henum, hsome, -, hsame⟩ := enum_of_first_scalars hnumbers Pointer.root
  obtain rfl : enum = some ws := Except.ok.inj ((henum .recording {}).symm.trans (outcome_enumAt ..))
  obtain ⟨vs', hvs', hgathered, -⟩ := hsome ws rfl
  obtain rfl : vs' = vs :=
    Option.some.inj ((Keywords.rawEnum_eq_some_iff.2 hvs').symm.trans (Keywords.rawEnum_eq_some_iff.2 hvs))
  exact ⟨hnumbers, hgathered, hsame _ _ us hvs hus (.tail (.single hlist) hone)⟩

end Parser
end TrackingPlan
