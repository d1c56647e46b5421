import TrackingPlan.Proofs.Parser.Site
/-!
# Faultless — when a site is at no fault

A schema whose members are `Tidy` can only be at fault for what it is: it has to be an object, and its type has to be
one that is supported (`Site.faultless_iff`).  Besides, no two sites of one parse that lie inside each other share a
place.
-/
namespace TrackingPlan
namespace Parser

open Keywords (Members)

variable {linked : Bool}

/-! ## What is reached -/

theorem Inside.place_lt {ms : Members} {place : Location} {t : RawType} {c : Site} (h : Inside linked ms place t c) :
    place.length < c.place.length := by
  have happend : ∀ step rest : String, 0 < step.length → place.length < (place ++ step ++ rest).length := by
    intro step rest h
    rw [String.length_append, String.length_append]
    omega
  cases h with
  | property => exact happend _ _ (by decide)
  | definition => exact happend _ _ (by decide)
  | items =>
    have h := happend "/items" "" (by decide)
    rw [String.append_empty] at h
    exact h
  | item => exact happend _ _ (by decide)

theorem Site.Reaches.place {s t : Site} (h : s.Reaches linked t) : t = s ∨ s.place.length < t.place.length := by
  induction h with
  | refl => exact .inl rfl
  | tail _ hc ih =>
    obtain ⟨ms, ts, u, -, -, -, hin⟩ := hc
    have hlt := hin.place_lt
    refine .inr ?_
    rcases ih with rfl | ih
    · exact hlt
    · exact Nat.lt_trans ih hlt

/-- Inside a definition nothing stands at the root. -/
theorem Site.Reaches.place_ne_root {d : Json} {k : String} {t : Site}
    (h : Site.Reaches linked ⟨d, false, Pointer.ofDefinition k⟩ t) : t.place ≠ Pointer.root := by
  intro he
  have hle : (Pointer.ofDefinition k).length ≤ t.place.length := by
    rcases h.place with rfl | hlt
    · exact Nat.le_refl _
    · exact Nat.le_of_lt hlt
  have hlen : (Pointer.ofDefinition k).length = 8 + k.length := String.length_append ..
  rw [he, hlen] at hle
  have hroot : Pointer.root.length = 1 := rfl
  omega

theorem Inside.untyped {ms : Members} {place : Location} {t : RawType} {c : Site} (h : Inside linked ms place t c)
    (hc : c.untyped = true) : ∃ is, c.raw = .obj is ∧ is.lookup "type" = none := by
  have htype : ∀ is : Members, isUntyped is = true → is.lookup "type" = none := fun is his => by
    simp only [isUntyped, isTypeless, Bool.and_eq_true] at his
    exact Option.isNone_iff_eq_none.1 his.2.2
  cases h with
  | property | definition => cases hc
  | @items is => exact ⟨is, rfl, htype is hc⟩
  | @item vs i is => exact ⟨is, rfl, htype is (Bool.and_eq_true_iff.1 hc).2⟩

theorem Site.Reaches.untyped {s t : Site} (h : s.Reaches linked t) (hs : s.untyped = false) (ht : t.untyped = true) :
    ∃ is, t.raw = .obj is ∧ is.lookup "type" = none := by
  induction h with
  | refl => rw [hs] at ht; cases ht
  | tail _ hc _ =>
    obtain ⟨ms, ts, u, -, -, -, hin⟩ := hc
    exact hin.untyped ht

/-! ## Supported types -/

/-- A value that names one of the types. -/
def NamesType (v : Json) : Prop := ∃ s t, v = .str s ∧ RawType.ofText? s = some t

/-- **The type of a schema** is absent, null, the name of a type or a list of such names. -/
def TypesSupported (ms : Members) : Prop :=
  match ms.lookup "type" with
  | none | some .null => True
  | some (.arr vs) => ∀ v ∈ vs, NamesType v
  | some v => NamesType v

theorem typeOf_ok_iff {v : Json} : (∃ t, Keywords.typeOf v = .ok t) ↔ NamesType v := by
  constructor
  · rintro ⟨t, ht⟩
    cases v with
    | str s =>
      cases hs : RawType.ofText? s with
      | none => simp only [Keywords.typeOf, hs] at ht; cases ht
      | some u => exact ⟨s, u, rfl, hs⟩
    | _ => cases ht
  · rintro ⟨s, t, rfl, ht⟩
    exact ⟨t, by simp only [Keywords.typeOf, ht]⟩

theorem mapM_ok_iff {α β : Type} {f : α → Except Json β} : ∀ {vs : List α},
    (∃ ts, vs.mapM f = .ok ts) ↔ ∀ v ∈ vs, ∃ t, f v = .ok t
  | [] => ⟨fun _ _ hv => (by cases hv), fun _ => ⟨[], rfl⟩⟩
  | v :: vs => by
    rw [List.forall_mem_cons, ← mapM_ok_iff, List.mapM_cons]
    cases hv : f v with
    | error e => exact ⟨fun ⟨_, h⟩ => (by cases h), fun ⟨⟨_, h⟩, _⟩ => (by cases h)⟩
    | ok t =>
      cases hvs : vs.mapM f with
      | error e => exact ⟨fun ⟨_, h⟩ => (by cases h), fun ⟨_, _, h⟩ => (by cases h)⟩
      | ok ts => exact ⟨fun _ => ⟨⟨t, rfl⟩, ts, rfl⟩, fun _ => ⟨t :: ts, rfl⟩⟩

theorem map_ok_iff {α β : Type} {e : Except Json α} {f : α → β} : (∃ b, e.map f = .ok b) ↔ ∃ a, e = .ok a := by
  cases e with
  | ok a => exact ⟨fun _ => ⟨a, rfl⟩, fun _ => ⟨f a, rfl⟩⟩
  | error _ => exact ⟨fun ⟨_, h⟩ => (by cases h), fun ⟨_, h⟩ => (by cases h)⟩

theorem types_ok_iff {ms : Members} : (∃ ts, Keywords.types ms = .ok ts) ↔ TypesSupported ms := by
  unfold Keywords.types TypesSupported
  cases ms.lookup "type" with
  | none => exact ⟨fun _ => trivial, fun _ => ⟨[], rfl⟩⟩
  | some v =>
    cases v with
    | null => exact ⟨fun _ => trivial, fun _ => ⟨[], rfl⟩⟩
    | arr vs => exact map_ok_iff.trans (mapM_ok_iff.trans (forall₂_congr fun _ _ => typeOf_ok_iff))
    | _ => exact map_ok_iff.trans typeOf_ok_iff

/-! ## Sites without a fault -/

/-- **Members that hold objects where schemas are named, and a list of names where some are required.** -/
structure Tidy (ms : Members) : Prop where
  members : ∀ key v, key = "properties" ∨ key = "$defs" → ms.lookup key = some v → v.isObject = true
  required : ∀ v, ms.lookup "required" = some v → ∃ names : List String, v = .arr (names.map .str)

theorem Tidy.faultless {ms : Members} (h : Tidy ms) {t : RawType} {f : Fault} : ¬Faulty ms t f := by
  intro hf
  cases hf with
  | required hr =>
    unfold Keywords.required at hr
    split at hr
    · next v hv =>
      obtain ⟨names, rfl⟩ := h.required v (Option.filter_eq_some_iff.1 hv).1
      have hall : (names.map Json.str).all Json.isScalar = true := by
        rw [List.all_map, List.all_eq_true]
        exact fun _ _ => rfl
      rw [Keywords.namesIn, if_pos hall] at hr
      cases hr
    · cases hr
  | members hk hl ho _ =>
    rw [h.members _ _ hk hl] at ho
    cases ho

/-- **A site of tidy members is at no fault exactly when it is an object of supported types.** -/
theorem Site.faultless_iff {s : Site} (htidy : ∀ is, s.raw = .obj is → Tidy is)
    (hu : s.untyped = true → ∃ is, s.raw = .obj is ∧ is.lookup "type" = none) :
    (∀ f, ¬s.Blames f) ↔ ∃ is, s.raw = .obj is ∧ TypesSupported is := by
  constructor
  · intro h
    obtain ⟨is, his⟩ : ∃ is, s.raw = .obj is := by
      cases hr : s.raw with
      | obj is => exact ⟨is, rfl⟩
      | _ => exact (h _ (.notSchema (by rw [hr]; rfl))).elim
    refine ⟨is, his, ?_⟩
    cases hs : s.untyped with
    | true =>
      obtain ⟨is', his', htype⟩ := hu hs
      rw [his] at his'; cases his'
      unfold TypesSupported
      rw [htype]
      trivial
    | false =>
      have hts : s.types = Keywords.types is := by simp [Site.types, his, hs]
      rw [← types_ok_iff]
      cases ht : Keywords.types is with
      | ok ts => exact ⟨ts, rfl⟩
      | error v => exact (h _ (.unsupported (hts.trans ht))).elim
  · rintro ⟨is, his, hsup⟩ f hf
    cases hf with
    | notSchema hn => rw [his] at hn; cases hn
    | unsupported he =>
      obtain ⟨ts, hts⟩ := types_ok_iff.2 hsup
      simp only [Site.types, his] at he
      split at he
      · cases he
      · rw [hts] at he; cases he
    | keyword hr _ _ hf => exact (htidy _ hr).faultless hf

end Parser
end TrackingPlan
