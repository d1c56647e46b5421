import TrackingPlan.Proofs.Resolver.Blame
/-!
# Owner — the definition that an error names

Two things tell which definition an error is in.  A reference that does not resolve is put down to the definition that
is the innermost in progress; every other error reads the definition off its place.  A place does not mark where the id
ends, so the two agree just for an id that is `Plain`, a text without a slash that is not empty
(`definition_named_iff`); for any other id a definition is named that the error is not in, or none.
-/
namespace TrackingPlan
namespace Pointer

/-! ## Places below a place -/

/-- **A place further down**: it goes on with a slash, if at all. -/
def Below (base place : Location) : Prop :=
  ∃ rest : List Char, place.toList = base.toList ++ rest ∧ ∀ c ∈ rest.head?, c = '/'

theorem Below.refl (base : Location) : Below base base := ⟨[], (List.append_nil _).symm, fun _ h => by cases h⟩

theorem Below.trans {a b c : Location} (h : Below a b) (h' : Below b c) : Below a c := by
  obtain ⟨rest, hb, hrest⟩ := h
  obtain ⟨rest', hc, hrest'⟩ := h'
  refine ⟨rest ++ rest', by rw [hc, hb, List.append_assoc], ?_⟩
  cases rest with
  | nil => exact hrest'
  | cons x xs => exact hrest

theorem below_append {base step : String} (rest : String) (h : step.toList.head? = some '/') :
    Below base (base ++ step ++ rest) := by
  refine ⟨step.toList ++ rest.toList, by rw [String.toList_append, String.toList_append, List.append_assoc], ?_⟩
  rw [List.head?_append, h]
  exact fun c hc => (Option.some.inj hc).symm

/-! ## The definition that a place names -/

theorem takeWhile_ne_slash {cs rest : List Char} (h : ∀ c ∈ rest.head?, c = '/') :
    (cs ++ rest).takeWhile (· ≠ '/') = cs ↔ '/' ∉ cs := by
  constructor
  · intro heq hmem
    have hall := List.all_takeWhile (p := (· ≠ '/')) (l := cs ++ rest)
    rw [heq, List.all_eq_true] at hall
    exact of_decide_eq_true (hall '/' hmem) rfl
  · intro hno
    have hall : ∀ c ∈ cs, decide (c ≠ '/') = true := fun c hc => decide_eq_true fun he => hno (he ▸ hc)
    have hrest : rest.takeWhile (· ≠ '/') = [] := by
      cases rest with
      | nil => rfl
      | cons c rest => rw [h c rfl]; rfl
    rw [List.takeWhile_append_of_pos hall, hrest, List.append_nil]

/-- **A place below a definition names it** when its id is not empty and has no slash. -/
theorem definition?_eq_some_iff {k : String} {place : Location} (h : Below (ofDefinition k) place) :
    definition? place = some k ↔ k ≠ "" ∧ '/' ∉ k.toList := by
  obtain ⟨rest, hplace, hrest⟩ := h
  have hprefix : defsChars.isPrefixOf? place.toList = some (k.toList ++ rest) := by
    rw [hplace, ofDefinition, String.toList_append]
    rfl
  rw [definition?, hprefix]
  simp only
  rw [← takeWhile_ne_slash hrest]
  generalize (k.toList ++ rest).takeWhile (· ≠ '/') = taken
  constructor
  · intro h
    split at h
    · cases h
    · next hempty =>
      cases h
      refine ⟨fun he => hempty ?_, String.toList_ofList.symm⟩
      rw [← @String.toList_ofList taken, he]
      rfl
  · rintro ⟨hk, rfl⟩
    rw [if_neg, String.ofList_toList]
    rw [List.isEmpty_iff]
    exact fun he => hk (String.toList_eq_nil_iff.1 he)

theorem definition?_eq_none {place : Location} (h : place.toList[2]? ≠ some '$') : definition? place = none := by
  unfold definition?
  cases hrest : defsChars.isPrefixOf? place.toList with
  | none => rfl
  | some rest =>
    rw [← List.isPrefixOf?_eq_some_iff_append_eq.1 hrest] at h
    exact absurd rfl h

end Pointer

namespace Parser

/-! ## Where the sites of a definition are -/

theorem Inside.below {linked : Bool} {ms : Keywords.Members} {place : Location} {t : RawType} {c : Site}
    (h : Inside linked ms place t c) : Pointer.Below place c.place := by
  cases h with
  | property => exact Pointer.below_append _ rfl
  | definition => exact Pointer.below_append _ rfl
  | items =>
    have h := @Pointer.below_append place "/items" "" rfl
    rw [String.append_empty] at h
    exact h
  | item => exact Pointer.below_append _ rfl

theorem Site.Reaches.below {linked : Bool} {s t : Site} (h : s.Reaches linked t) : Pointer.Below s.place t.place := by
  induction h with
  | refl => exact .refl _
  | tail _ hc ih =>
    obtain ⟨ms, ts, u, -, -, -, hin⟩ := hc
    exact ih.trans hin.below

/-- **Outside of the definitions at the root no place names one.** -/
theorem Site.Reaches.definition?_eq_none {s t : Site} (h : s.Reaches true t) (hs : s.place = Pointer.root) :
    Pointer.definition? t.place = none := by
  rcases Relation.ReflTransGen.cases_head h with rfl | ⟨c, ⟨ms, ts, u, -, -, -, hin⟩, hc⟩
  · rw [hs]; rfl
  · obtain ⟨rest, hplace, -⟩ := Site.Reaches.below hc
    rw [hs] at hin
    have hnone : ∀ c : Char, c ≠ '$' → t.place.toList[2]? = some c → Pointer.definition? t.place = none :=
      fun c hc h => Pointer.definition?_eq_none (by rw [h]; exact fun he => hc (Option.some.inj he))
    cases hin with
    | property =>
      refine hnone 'p' (by decide) ?_
      rw [hplace, Pointer.property, String.toList_append, String.toList_append]
      rfl
    | definition hr => exact absurd ⟨rfl, rfl⟩ hr
    | items =>
      refine hnone 'i' (by decide) ?_
      rw [hplace, Pointer.items, String.toList_append]
      rfl
    | item =>
      refine hnone 'i' (by decide) ?_
      rw [hplace, Pointer.item, String.toList_append, String.toList_append]
      rfl

end Parser

/-! ## The definition that an error names -/

/-- **An id that a place tells**: a text that is not empty and has no slash. -/
def DefId.Plain (id : DefId) : Prop := ∃ k, id = .key k ∧ k ≠ "" ∧ '/' ∉ k.toList

/-- Whether an error is of a reference, which is put down to the definition in progress. -/
def Cause.IsReference : Cause → Prop
  | .badReference _ _ => True
  | _ => False

theorem Pointer.definition?_named_iff {id : DefId} {place : Location} (h : Below (ofDefinition id.text) place) :
    (definition? place).map DefId.key = some id ↔ id.Plain := by
  rw [Option.map_eq_some_iff]
  constructor
  · rintro ⟨k, hk, rfl⟩
    exact ⟨k, rfl, (definition?_eq_some_iff h).1 hk⟩
  · rintro ⟨k, rfl, hk⟩
    exact ⟨k, (definition?_eq_some_iff h).2 hk, rfl⟩

namespace Resolver

open TrackingPlan.Parser (Site)

variable {r : Resolver} {e : SchemaError} {l m : Ledger}

/-- An error at a site names the innermost definition when it is of a reference, else the one of its place. -/
theorem Bears.definition {inside : Option DefId} {s : Site} (h : r.Bears inside s (.schema e)) :
    e.path = s.place ∧ (e.cause.IsReference ∧ e.definition = inside ∨
      ¬e.cause.IsReference ∧ e.definition = (Pointer.definition? s.place).map .key) := by
  cases h with
  | own h =>
    cases h with
    | notSchema => exact ⟨rfl, .inr ⟨id, rfl⟩⟩
    | unsupported => exact ⟨rfl, .inr ⟨id, rfl⟩⟩
    | keyword _ _ _ hfaulty => exact absurd ⟨e, rfl⟩ hfaulty.outer.not_schema
  | reference => exact ⟨rfl, .inl ⟨trivial, rfl⟩⟩

/-- **Which definition an error names**, when it is met in one: a reference that does not resolve names it; any other
error names it, and its place does, exactly when the id is plain. -/
theorem definition_of_innermost {s : Site} {id : DefId} (hs : r.Innermost m s)
    (h : r.Bears m.inProgress.head? s (.schema e)) (hid : m.inProgress.head? = some id) :
    (e.definition = some id ↔ e.cause.IsReference ∨ id.Plain) ∧
      ((Pointer.definition? e.path).map .key = some id ↔ id.Plain) := by
  obtain ⟨id', d, hid', -, hreach⟩ := hs
  cases hid.symm.trans hid'
  obtain ⟨hpath, hdef⟩ := h.definition
  have hplace := Pointer.definition?_named_iff hreach.below
  rw [hpath]
  refine ⟨?_, hplace⟩
  rcases hdef with ⟨hr, hd⟩ | ⟨hr, hd⟩
  · rw [hd, hid]
    exact ⟨fun _ => .inl hr, fun _ => rfl⟩
  · rw [hd, hplace]
    exact ⟨.inr, fun h => h.resolve_left hr⟩

/-- **The definition that an error names.**  A call, after any history, that fails by an error other than a ring of
definitions, stops with some definitions in progress.  If there are any, the error names the innermost exactly when it
is of a reference or the id of that one is plain, and the place of the error does exactly in the second case.  If there
is none and the call parses an event from its root, no definition is named. -/
theorem definition_named_iff (r : Resolver) (calls : List Call) {c : Call} {e : SchemaError}
    (h : r.Fails c (r.performAll calls) (.schema e)) (hc : ∀ ids, e.cause ≠ .cycle ids) :
    (∀ id, (r.stop c (r.performAll calls)).inProgress.head? = some id →
      (e.definition = some id ↔ e.cause.IsReference ∨ id.Plain) ∧
        ((Pointer.definition? e.path).map .key = some id ↔ id.Plain)) ∧
    ((r.stop c (r.performAll calls)).inProgress = [] → ∀ raw name isRequired,
      c = .parse raw name isRequired Pointer.root → e.definition = none ∧ Pointer.definition? e.path = none) := by
  obtain ⟨hl, hnone⟩ := r.valid_performAll calls
  rcases stop_tells c hl h ⟨e, rfl, hc⟩ with ⟨s, hs, hbears⟩ | ⟨hprog, hown⟩
  · refine ⟨fun id hid => definition_of_innermost hs hbears hid, fun hnil => ?_⟩
    obtain ⟨id, -, hid, -⟩ := hs
    rw [hnil] at hid
    cases hid
  · rw [hnone] at hprog
    refine ⟨fun id hid => (by rw [hprog] at hid; cases hid), fun _ raw name isRequired hcall => ?_⟩
    subst hcall
    rcases hown with ⟨s, hs, hbears⟩ | ⟨s, k, n, hs, -, -, he⟩
    · obtain ⟨hpath, hdef⟩ := hbears.definition
      have hplace := hs.definition?_eq_none rfl
      rw [hpath]
      refine ⟨?_, hplace⟩
      rcases hdef with ⟨-, hd⟩ | ⟨-, hd⟩
      · rw [hd, hnone]; rfl
      · rw [hd, hplace]; rfl
    · cases he
      exact ⟨rfl, hs.definition?_eq_none rfl⟩

/-- The resolver of a document with one definition, of a type that there is not. -/
def dated (key : String) : Resolver := { definitions := .keyed [(key, .obj [("type", .str "date")])] }

def datedError (path : Location) (definition : String) : SchemaError :=
  ⟨.unsupportedType (.str "date"), path, some (.key definition)⟩

theorem dated_fails : (dated "Created").Fails .all {} (.schema (datedError "#/$defs/Created" "Created")) := by rfl

theorem definition_named_in_created :
    (dated "Created").Fails .all {} (.schema (datedError "#/$defs/Created" "Created")) ∧
      (∀ ids, (datedError "#/$defs/Created" "Created").cause ≠ .cycle ids) ∧
      ((datedError "#/$defs/Created" "Created").definition = some (.key "Created") ↔
        (datedError "#/$defs/Created" "Created").cause.IsReference ∨ (DefId.key "Created").Plain) :=
  have hcause : ∀ ids, (datedError "#/$defs/Created" "Created").cause ≠ .cycle ids := fun _ h => by cases h
  ⟨dated_fails, hcause, ((definition_named_iff _ [] dated_fails hcause).1 _ (by rfl)).1⟩

/-- **An id with a slash is cut short**: the error is met in the definition `a/b` and names `a`, which is not even
declared. -/
theorem definition_cut_short : (dated "a/b").Fails .all {} (.schema (datedError "#/$defs/a/b" "a")) ∧
    ((dated "a/b").stop .all {}).inProgress = [.key "a/b"] ∧ (dated "a/b").definitions.find? (.key "a") = .ok none := by
  refine ⟨?_, ?_, ?_⟩ <;> rfl

end Resolver
end TrackingPlan
