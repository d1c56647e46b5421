import TrackingPlan.Proofs.Build.WellFormed
/-!
# Contents — what a prepared build holds

Whatever its document, a build has for custom types what was registered for the definitions, and its schema ends the
parse of the event by these (`Prepared`).  Parsing the event registers nothing more: all definitions are resolved
before, and nothing else can be.
-/
namespace TrackingPlan
namespace Build

open Keywords (Members)
open TrackingPlan.Parser (membersIn)

/-- The resolver of any document; what it declares need not be an object. -/
def documentResolver (ms : Members) (eventName : String) (options : Options) : Resolver where
  definitions := .ofJson? (ms.lookup "$defs")
  source := eventName
  template := options.description

/-- **How a build comes from its document.** -/
structure Prepared (ms : Members) (eventName : String) (options : Options) (b : Build) : Prop where
  sound : (documentResolver ms eventName options).Sound b.customTypes
  types : ∀ id, (∃ n, (id, n) ∈ b.customTypes) ↔ ∃ k d, id = .key k ∧ Declares ms k d
  schema : ∃ rs, (Parser.script true (.obj ms) (.str eventName) false Pointer.root).Ends rs b.schema ∧
    ∀ q ∈ rs, (documentResolver ms eventName options).AnsweredBy b.customTypes q
  settings : b.options = options

variable {ms : Members} {eventName : String} {options : Options} {b : Build}

/-! ## Definitions of any sort -/

theorem not_mem_entries {v : Json} (hv : v.isObject = false) (k : String) (d : Json) :
    .ok (.key k, d) ∉ (Definitions.ofJson? (some v)).entries := by
  intro h
  unfold Definitions.ofJson? at h
  split at h
  · next ds he => cases he; cases hv
  · next w ws _ =>
    obtain ⟨u, -, he⟩ := List.mem_map.1 h
    unfold Definitions.entry at he
    split at he
    · next id _ =>
      cases hf : Definitions.entryFor (w :: ws) id with
      | error f => rw [hf] at he; cases he
      | ok x => rw [hf] at he; cases he; cases hf
    · cases he
  · next s _ =>
    split at h
    · cases h
    · cases List.mem_singleton.1 h
  · next w _ _ _ _ =>
    split at h
    · cases List.mem_singleton.1 h
    · cases h
  · cases h

/-- **The entries with a key are the members of an object**: no other declaration has any that can be looked up. -/
theorem mem_entries_iff (ms : Members) (k : String) (d : Json) :
    .ok (.key k, d) ∈ (Definitions.ofJson? (ms.lookup "$defs")).entries ↔ (k, d) ∈ membersIn ms "$defs" := by
  unfold membersIn
  cases hl : ms.lookup "$defs" with
  | none => exact ⟨fun h => (by cases h), fun h => (by cases h)⟩
  | some v =>
    cases v with
    | obj ds =>
      constructor
      · intro h
        obtain ⟨e, he, heq⟩ := List.mem_map.1 h
        cases heq
        exact he
      · exact fun h => List.mem_map.2 ⟨_, h, rfl⟩
    | _ => exact ⟨fun h => (not_mem_entries rfl k d h).elim, fun h => (by cases h)⟩

/-! ## From the preparation to the build -/

section

variable {r : Resolver} {l l' : Ledger} {reg : Registry}

/-- Once all definitions are resolved, nothing is registered that was not before. -/
theorem registry_subset_of_resolveAll (hl : r.Valid l) (h : r.resolveAll.outcome l = .ok reg) (hl' : r.Valid l') :
    l'.registry ⊆ (r.resolveAll.after l).registry := by
  intro e he
  have hentries : ∀ e ∈ r.definitions.entries, ∃ p, e = .ok p := fun e he => by
    obtain ⟨id, d, rfl, -⟩ := Resolver.entry_of_resolveAll hl h he
    exact ⟨_, rfl⟩
  exact (Resolver.mem_registry_of_resolveAll hl h e).2 (hl'.value hentries he)

/-- **The ids that are registered once all definitions are resolved** are those of definitions that are no truth value.
-/
theorem registered_iff_of_resolveAll (hl : r.Valid l) (h : r.resolveAll.outcome l = .ok reg) (id : DefId) :
    (∃ n, (id, n) ∈ (r.resolveAll.after l).registry) ↔
      ∃ k d, id = .key k ∧ .ok (.key k, d) ∈ r.definitions.entries ∧ d.isBool = false := by
  constructor
  · rintro ⟨n, hn⟩
    obtain ⟨k, d, hk, hd, hb, -⟩ := (Resolver.mem_registry_of_resolveAll hl h _).1 hn
    exact ⟨k, d, hk, hd, hb⟩
  · rintro ⟨k, d, rfl, hd, hb⟩
    obtain ⟨id, d', he, hentry⟩ := Resolver.entry_of_resolveAll hl h hd
    cases he
    obtain ⟨j, n, hj, hn, -⟩ := hentry hb
    cases hj
    exact ⟨n, hn⟩

end

/-- **A build that was prepared** comes from an object, by its own resolver. -/
theorem prepared_of_prepare {raw : Json} (h : (prepare raw eventName options).outcome {} = .ok b) :
    ∃ ms, raw = .obj ms ∧ Prepared ms eventName options b := by
  cases raw with
  | obj ms =>
    refine ⟨ms, rfl, ?_⟩
    obtain ⟨r, hr, h⟩ := Parsing.ok_of_bind (f := fun r : Resolver => _) h
    cases hr
    change ((documentResolver ms eventName options).resolveAll >>= _).outcome {} = _ at h
    obtain ⟨types, htypes, h⟩ := Parsing.ok_of_bind h
    obtain ⟨_, -, h⟩ := Parsing.ok_of_bind h
    obtain ⟨schema, hschema, h⟩ := Parsing.ok_of_bind h
    cases h
    have hnew := (documentResolver ms eventName options).valid_empty
    have hall := Resolver.resolveAll_keeps hnew
    have hnoted := (Resolver.Keeps.record ⟨.debug, Log.loggerName logger, "Resolved " ++ Numeral.nat types.length
      ++ " custom type(s) for '" ++ eventName ++ "'"⟩ hall.step.valid).step
    have hparse := Resolver.parse_keeps (.obj ms) (.str eventName) false Pointer.root hnoted.valid
    obtain ⟨htypes', -⟩ := hall.result types htypes
    obtain ⟨rs, hends, hrs⟩ := hparse.result schema hschema
    have hsub := registry_subset_of_resolveAll hnew htypes hparse.step.valid
    refine ⟨?_, fun id => ?_, ⟨rs, hends, fun q hq => ?_⟩, rfl⟩
    · rw [htypes']; exact hall.step.valid.sound
    · rw [htypes', registered_iff_of_resolveAll hnew htypes]
      refine exists_congr fun k => exists_congr fun d => and_congr_right fun _ => and_congr_left fun _ => ?_
      exact mem_entries_iff ms k d
    · rw [htypes']; exact (hrs q hq).mono hsub
  | _ => cases h

end Build
end TrackingPlan
