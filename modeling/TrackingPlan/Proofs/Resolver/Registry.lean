import TrackingPlan.Proofs.Parser.Keeps
import TrackingPlan.Proofs.Resolver.Identity
/-!
# Registry — how a custom type comes to be registered

An entry is `Registered` behind others when its definition parses to it, all that the parse asks being answered by
those before.  A registry is `Sound` when each of its entries came in like that, with an id of its own.  So whatever a
node names is registered strictly earlier (`Sound.names_earlier`).
-/
namespace TrackingPlan

abbrev Registry : Type := List (DefId × Node)

namespace Resolver

open Script (Request)

variable {r : Resolver}

/-- The script that parses a definition. -/
def definitionScript (id : DefId) (definition : Json) : Script Node :=
  Parser.script true definition (nameFor id definition) false (Pointer.ofDefinition id.text)

/-- **The registry has what is asked for.** -/
def AnsweredBy (r : Resolver) (reg : Registry) : Request → Prop
  | .reference ref _ => ∃ k d n, Pointer.target? ref = some k ∧ r.definitions.find? (.key k) = .ok (some d) ∧
      d.isBool = false ∧ (.key k, n) ∈ reg
  | .definition key _ n => (.key key, n) ∈ reg

theorem AnsweredBy.mono {reg reg' : Registry} (h : reg ⊆ reg') {q : Request} (hq : r.AnsweredBy reg q) :
    r.AnsweredBy reg' q := by
  cases q with
  | reference ref place =>
    obtain ⟨k, d, n, hk, hd, hb, hn⟩ := hq
    exact ⟨k, d, n, hk, hd, hb, h hn⟩
  | definition key place n => exact h hq

/-- **The node of an id behind the entries before it.** -/
def Registered (r : Resolver) (before : Registry) (id : DefId) (node : Node) : Prop :=
  ∃ d rs n, r.definitions.find? id = .ok (some d) ∧ (definitionScript id d).Ends rs n ∧
    (∀ q ∈ rs, r.AnsweredBy before q) ∧ r.withDescription n = .ok node

/-- **A registry whose entries came in one after the other.** -/
inductive Sound (r : Resolver) : Registry → Prop where
  | nil : Sound r []
  | snoc {reg id n} (h : Sound r reg) (hnew : ∀ e ∈ reg, e.1.same id = false) (hn : r.Registered reg id n) :
    Sound r (reg ++ [(id, n)])

/-- A node keeps its description, and without one gets that from the template. -/
theorem withDescription_eq_ok {n node : Node} (h : r.withDescription n = .ok node) :
    (n.info.description.isSome ∧ node = n) ∨ (n.info.description = none ∧
      ∃ text, r.describe = .ok text ∧ node = n.withInfo (fun i => { i with description := some text })) := by
  unfold withDescription at h
  cases hd : n.info.description with
  | some v =>
    rw [hd] at h
    cases h
    exact .inl ⟨rfl, rfl⟩
  | none =>
    rw [hd] at h
    cases htext : r.describe with
    | ok text => rw [htext] at h; cases h; exact .inr ⟨rfl, text, rfl, rfl⟩
    | error f => rw [htext] at h; cases h

theorem names_of_withDescription {n node : Node} (h : r.withDescription n = .ok node) {name : String}
    (hn : node.Names name) : n.Names name := by
  rcases withDescription_eq_ok h with ⟨-, rfl⟩ | ⟨-, _, -, rfl⟩
  · exact hn
  · exact hn.of_withInfo.elim .of_info id

theorem Sound.at_entry {reg : Registry} (h : r.Sound reg) : ∀ {before after : Registry} {id : DefId} {n : Node},
    reg = before ++ (id, n) :: after →
      r.Sound before ∧ (∀ e ∈ before, e.1.same id = false) ∧ r.Registered before id n := by
  induction h with
  | nil => intro before after id n he; simp at he
  | @snoc reg id' n' h hnew hn ih =>
    intro before after id n he
    rcases List.eq_nil_or_concat after with rfl | ⟨after, e, rfl⟩
    · obtain ⟨rfl, hl⟩ := List.append_inj' he rfl
      cases hl
      exact ⟨h, hnew, hn⟩
    · rw [List.concat_eq_append, ← List.cons_append, ← List.append_assoc] at he
      exact ih (List.append_inj_left' he rfl)

/-- **No id is registered twice.** -/
theorem Sound.nodup {reg : Registry} (h : r.Sound reg) : (reg.map Prod.fst).Nodup := by
  induction h with
  | nil => exact List.nodup_nil
  | @snoc reg id n _ hnew hn ih =>
    obtain ⟨d, _, _, hd, -⟩ := hn
    rw [List.map_append, List.nodup_append]
    refine ⟨ih, List.pairwise_singleton _ id, ?_⟩
    rintro a ha b hb rfl
    obtain ⟨e, he, rfl⟩ := List.mem_map.1 ha
    obtain rfl : e.1 = id := List.mem_singleton.1 hb
    have hself := hnew e he
    rw [Definitions.same_of_find? hd] at hself
    cases hself

theorem Registered.names {before : Registry} {id : DefId} {node : Node} (h : r.Registered before id node)
    {name : String} (hn : node.Names name) :
    (∃ m, (.key name, m) ∈ before) ∨ ∃ key m, (.key key, m) ∈ before ∧ m.Names name := by
  obtain ⟨d, rs, n, -, hends, hans, hdesc⟩ := h
  have hn : n.Names name := names_of_withDescription hdesc hn
  obtain ⟨q, hq, hqn⟩ := (hends.of_spec (Parser.script_keeps ..)).1.2 name hn
  cases q with
  | reference ref place =>
    obtain ⟨k, -, m, hk, -, -, hm⟩ := hans _ hq
    cases hk.symm.trans hqn
    exact .inl ⟨m, hm⟩
  | definition key place m => exact .inr ⟨key, m, hans _ hq, hqn⟩

/-- **What a registered node names is registered strictly earlier.** -/
theorem Sound.names_earlier {reg : Registry} (h : r.Sound reg) : ∀ {before after : Registry} {id : DefId} {node : Node},
    reg = before ++ (id, node) :: after → ∀ name, node.Names name → ∃ m, (.key name, m) ∈ before := by
  intro before after id node he name hn
  obtain ⟨hb, -, hreg⟩ := h.at_entry he
  rcases hreg.names hn with hm | ⟨key, m, hm, hname⟩
  · exact hm
  · obtain ⟨before', after', rfl⟩ := List.append_of_mem hm
    obtain ⟨p, hp⟩ := hb.names_earlier rfl name hname
    exact ⟨p, List.mem_append_left _ hp⟩
termination_by reg.length
decreasing_by simp_all

end Resolver
end TrackingPlan
