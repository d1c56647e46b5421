import TrackingPlan.Proofs.Resolver.Calls
import TrackingPlan.Proofs.Resolver.Value
/-!
# Independence — what was done before does not show

A call ends as it would on a new resolver, whatever was resolved before or failed to (`history_independent`).  For
resolutions and parses this is because they end with values, which know of no registry.  Resolving all definitions
succeeds when all have values (`resolveAll_succeeds_iff`), and then just these are registered
(`mem_registry_of_resolveAll`).
-/
namespace TrackingPlan

/-! ## Entries that can be looked up -/

namespace Definitions

theorem mem_of_entryFor {vs : List Json} {id : DefId} {d : Json} (h : entryFor vs id = .ok d) : d ∈ vs := by
  have hat : ∀ i : Int, entryAt vs i = .ok d → d ∈ vs := fun i hi => by
    unfold entryAt at hi
    generalize (if i < 0 then i + vs.length else i) = index at hi
    simp only at hi
    split at hi
    · cases hi
    · split at hi
      · next v hv => cases hi; exact List.mem_of_getElem? hv
      · cases hi
  cases id with
  | position i => exact hat _ h
  | flag b => exact hat _ h
  | _ => cases h

theorem key_of_find? {ds : Definitions} (hes : ∀ e ∈ ds.entries, ∃ p, e = .ok p) {id : DefId}
    {ms : List (String × Json)} (h : ds.find? id = .ok (some (.obj ms))) :
    ∃ k, id = .key k ∧ .ok (.key k, .obj ms) ∈ ds.entries := by
  cases ds with
  | keyed ns =>
    cases id with
    | key k => exact ⟨k, rfl, List.mem_map.2 ⟨_, Table.mem_of_lookup (Except.ok.inj h), rfl⟩⟩
    | _ => cases h
  | listed vs =>
    simp only [find?] at h
    split at h
    · cases hd : entryFor vs id with
      | error f => rw [hd] at h; cases h
      | ok d =>
        rw [hd] at h; cases h
        obtain ⟨p, hp⟩ := hes (entry vs (.obj ms)) (List.mem_map.2 ⟨_, mem_of_entryFor hd, rfl⟩)
        cases hp
    · cases h
  | text s =>
    cases id with
    | key k =>
      simp only [find?] at h
      split at h <;> cases h
    | _ => cases h
  | other => cases h

end Definitions

namespace Resolver

variable {r : Resolver}

/-! ## All definitions -/

/-- The definition of an entry has a value, or is a truth value and needs none. -/
def HasValue (r : Resolver) (e : Except Fault (DefId × Json)) : Prop :=
  ∃ id d, e = .ok (id, d) ∧ (d.isBool = true ∨ ∃ k n, id = .key k ∧ r.value (.key k) "" = .ok n)

theorem Registered.declared {before : Registry} {id : DefId} {node : Node} (h : r.Registered before id node) :
    ∃ ms, r.definitions.find? id = .ok (some (.obj ms)) := by
  obtain ⟨d, rs, n, hd, hends, -, -⟩ := h
  have hs := ((hends.of_spec (Parser.script_keeps ..)).1.1 _ .refl).1
  cases d with
  | obj ms => exact ⟨ms, hd⟩
  | _ => exact (hs _ (.notSchema rfl)).elim

theorem Valid.value {l : Ledger} (h : r.Valid l) (hes : ∀ e ∈ r.definitions.entries, ∃ p, e = .ok p) {id : DefId}
    {node : Node} (hn : (id, node) ∈ l.registry) :
    ∃ k d, id = .key k ∧ .ok (.key k, d) ∈ r.definitions.entries ∧ d.isBool = false ∧
      r.value (.key k) "" = .ok node := by
  obtain ⟨before, after, he⟩ := List.append_of_mem hn
  obtain ⟨ms, hd⟩ := (h.sound.at_entry he).2.2.declared
  obtain ⟨k, rfl, hk⟩ := Definitions.key_of_find? hes hd
  exact ⟨k, .obj ms, rfl, hk, rfl, value_of_registered h.sound (.nil r l.registry) (Nat.le_add_right _ _) k node "" hn⟩

theorem resolveEntries_succeeds (r : Resolver) : ∀ (es : List (Except Fault (DefId × Json))), (∀ e ∈ es, r.HasValue e) →
    ∀ {l : Ledger}, r.Valid l → l.inProgress = [] → (r.resolveEntries es).outcome l = .ok ()
  | [], _, _, _, _ => rfl
  | e :: es, h, l, hl, hnone => by
    obtain ⟨⟨id, d, rfl, hd⟩, hes⟩ := List.forall_mem_cons.1 h
    have hstep := (resolveEntry_keeps id d hl).step
    have hentry : (r.resolveEntry id d).outcome l = .ok () := by
      unfold resolveEntry
      split
      · rfl
      · next hb =>
        obtain ⟨k, n, rfl, hn⟩ := hd.resolve_left hb
        rw [Parsing.outcome_bind, outcome_resolve hl hnone, hn]
        rfl
    have hrest := resolveEntries_succeeds r es hes hstep.valid (hstep.inProgress.trans hnone)
    show (r.resolveEntry id d >>= fun _ => r.resolveEntries es).outcome l = _
    rw [Parsing.outcome_bind, hentry]
    exact hrest

theorem entry_of_resolveAll {l : Ledger} (hl : r.Valid l) {reg : Registry} (h : r.resolveAll.outcome l = .ok reg)
    {e : Except Fault (DefId × Json)} (he : e ∈ r.definitions.entries) :
    ∃ id d, e = .ok (id, d) ∧ (d.isBool = false → ∃ k n, id = .key k ∧
      (.key k, n) ∈ (r.resolveAll.after l).registry ∧ r.value (.key k) "" = .ok n) := by
  have hkeeps := resolveAll_keeps hl
  obtain ⟨-, hes⟩ := hkeeps.result reg h
  have hok : ∀ e ∈ r.definitions.entries, ∃ p, e = .ok p := fun e he => by
    obtain ⟨id, d, he, -⟩ := hes e he
    exact ⟨_, he⟩
  obtain ⟨id, d, rfl, hd⟩ := hes e he
  refine ⟨id, d, rfl, fun hb => ?_⟩
  obtain ⟨i, n, hi, hn⟩ := hd hb
  obtain ⟨k, -, rfl, -, -, hv⟩ := hkeeps.step.valid.value hok hn
  rw [DefId.same_comm] at hi
  exact ⟨k, n, DefId.same_key hi, hn, hv⟩

/-- **All definitions are resolved exactly when all have values.** -/
theorem resolveAll_succeeds_iff {l : Ledger} (hl : r.Valid l) (hnone : l.inProgress = []) :
    (∃ reg, r.resolveAll.outcome l = .ok reg) ↔ ∀ e ∈ r.definitions.entries, r.HasValue e := by
  constructor
  · rintro ⟨reg, hreg⟩ e he
    obtain ⟨id, d, rfl, hd⟩ := entry_of_resolveAll hl hreg he
    refine ⟨id, d, rfl, or_iff_not_imp_left.2 fun hb => ?_⟩
    obtain ⟨k, n, hk, -, hv⟩ := hd (Bool.eq_false_iff.2 hb)
    exact ⟨k, n, hk, hv⟩
  · intro h
    refine ⟨((r.resolveEntries r.definitions.entries).after l).registry, ?_⟩
    show (r.resolveEntries r.definitions.entries >>= fun _ => _).outcome l = _
    rw [Parsing.outcome_bind, resolveEntries_succeeds r _ h hl hnone]
    rfl

/-- **What is registered once all definitions are resolved**: the values of just those that are no truth values. -/
theorem mem_registry_of_resolveAll {l : Ledger} (hl : r.Valid l) {reg : Registry}
    (h : r.resolveAll.outcome l = .ok reg) (e : DefId × Node) :
    e ∈ (r.resolveAll.after l).registry ↔ ∃ k d, e.1 = .key k ∧ .ok (.key k, d) ∈ r.definitions.entries ∧
      d.isBool = false ∧ r.value (.key k) "" = .ok e.2 := by
  constructor
  · refine fun he => (resolveAll_keeps hl).step.valid.value (fun e he => ?_) he
    obtain ⟨id, d, he, -⟩ := entry_of_resolveAll hl h he
    exact ⟨_, he⟩
  · rintro ⟨k, d, hk, hd, hb, hv⟩
    obtain ⟨id, d', he, hentry⟩ := entry_of_resolveAll hl h hd
    cases he
    obtain ⟨j, n, hj, hn, hvn⟩ := hentry hb
    cases hj
    have hne : n = e.2 := Except.ok.inj (hvn.symm.trans hv)
    rw [show e = (.key k, n) from Prod.ext hk hne.symm]
    exact hn

/-- **History does not show.**  After any calls, succeeding or failing, a resolution by key or reference and a parse
end as on a new resolver, with the same node or the same fault; and resolving all definitions succeeds when it does
there, and leaves the same nodes registered under the same ids. -/
theorem history_independent (r : Resolver) (calls : List Call) :
    (∀ id path, (r.resolve (.key id) path).outcome (r.performAll calls) = (r.resolve (.key id) path).outcome {}) ∧
      (∀ ref path, (r.resolveReference ref path).outcome (r.performAll calls) =
        (r.resolveReference ref path).outcome {}) ∧
      (∀ raw name isRequired path, (r.parse raw name isRequired path).outcome (r.performAll calls) =
        (r.parse raw name isRequired path).outcome {}) ∧
      ((∃ reg, r.resolveAll.outcome (r.performAll calls) = .ok reg) ↔ ∃ reg, r.resolveAll.outcome {} = .ok reg) ∧
      ((∃ reg, r.resolveAll.outcome {} = .ok reg) → ∀ e,
        e ∈ (r.resolveAll.after (r.performAll calls)).registry ↔ e ∈ (r.resolveAll.after {}).registry) := by
  obtain ⟨hl, hnone⟩ := valid_performAll r calls
  have hnew := valid_empty r
  have hiff : (∃ reg, r.resolveAll.outcome (r.performAll calls) = .ok reg) ↔ ∃ reg, r.resolveAll.outcome {} = .ok reg :=
    (resolveAll_succeeds_iff hl hnone).trans (resolveAll_succeeds_iff hnew rfl).symm
  refine ⟨fun id path => ?_, fun ref path => ?_, fun raw name isRequired path => ?_, hiff, fun hok e => ?_⟩
  · rw [outcome_resolve hl hnone, outcome_resolve hnew rfl]
  · rw [outcome_resolveReference hl hnone, outcome_resolveReference hnew rfl]
  · rw [outcome_parse hl hnone, outcome_parse hnew rfl]
  · obtain ⟨reg, hreg⟩ := hok
    obtain ⟨reg', hreg'⟩ := hiff.2 ⟨reg, hreg⟩
    rw [mem_registry_of_resolveAll hl hreg', mem_registry_of_resolveAll hnew hreg]

end Resolver
end TrackingPlan
