import Mathlib.Data.List.Perm.Subperm
import TrackingPlan.Proofs.Json.Equality
import TrackingPlan.Resolver
import TrackingPlan.Table
/-!
# Identity — when two ids are one, and how many can be declared

What an id is told apart by is its `token?`: a text, or the number that it counts as.  Two ids are the same exactly
when they have one token (`same_iff`), and the declared ids have their tokens from the document, so there are never
more of them than definitions (`length_le_count`).
-/
namespace TrackingPlan

/-- What an id is told apart by. -/
inductive Token where
  | text (s : String)
  | number (n : Json.Number)
  | nothing

namespace DefId

/-- The token of an id; what is not a number has none. -/
def token? : DefId → Option Token
  | .key s => some (.text s)
  | .absent => some .nothing
  | id => id.value.number?.map .number

theorem map_number_iff {a b : Option Json.Number} :
    (∃ t, a.map Token.number = some t ∧ b.map Token.number = some t) ↔ ∃ x, a = some x ∧ b = some x := by
  cases a <;> cases b <;> simp

/-- **Two ids are the same exactly when they have one token.** -/
theorem same_iff (a b : DefId) : a.same b = true ↔ ∃ t, a.token? = some t ∧ b.token? = some t := by
  have hnum : ∀ v w : Json, v.equal w = Json.equalNumbers v w →
      (v.equal w = true ↔ ∃ t, v.number?.map Token.number = some t ∧ w.number?.map Token.number = some t) :=
    fun v w h => by rw [h, Json.equalNumbers_iff, map_number_iff]
  cases a <;> cases b <;> first
    | exact hnum _ _ (by simp [value, Json.equal])
    | simp [same, value, token?, Json.equal, Json.equalNumbers, Json.number?]
  exact eq_comm

theorem same_comm (a b : DefId) : a.same b = b.same a := by
  rw [Bool.eq_iff_iff, same_iff, same_iff]
  exact exists_congr fun _ => and_comm

theorem same_key {id : DefId} {k : String} (h : id.same (.key k) = true) : id = .key k := by
  cases id with
  | key s => rw [eq_of_beq ((key_same_key s k).symm.trans h)]
  | _ => simp [same, value, Json.equal, Json.equalNumbers, Json.number?] at h

theorem same_self (k : String) : (DefId.key k).same (.key k) = true := by rw [key_same_key]; exact beq_self_eq_true k

end DefId

namespace Definitions

/-- The tokens of the ids that can be declared. -/
def tokens : Definitions → List Token
  | .keyed ms => ms.map (fun e => .text e.1)
  | .listed vs => vs.filterMap (fun v => v.number?.map .number)
  | _ => []

theorem length_tokens_le (ds : Definitions) : ds.tokens.length ≤ ds.count := by
  cases ds with
  | keyed ms => exact Nat.le_of_eq (List.length_map _)
  | listed vs => exact List.length_filterMap_le _ vs
  | _ => exact Nat.le_refl _

theorem number_of_entryFor {vs : List Json} {id : DefId} {d : Json} (h : entryFor vs id = .ok d) :
    id.token? = id.value.number?.map .number ∧ ∀ v : Json, v.equal id.value = Json.equalNumbers v id.value := by
  cases id with
  | position i => exact ⟨rfl, fun v => by cases v <;> simp [DefId.value, Json.equal]⟩
  | flag b => exact ⟨rfl, fun v => by cases v <;> simp [DefId.value, Json.equal]⟩
  | _ => cases h

theorem token_of_find? {ds : Definitions} {id : DefId} {d : Json} (h : ds.find? id = .ok (some d)) :
    ∃ t ∈ ds.tokens, id.token? = some t := by
  cases ds with
  | keyed ms =>
    cases id with
    | key k =>
      have hk := Table.mem_of_lookup (Except.ok.inj h)
      exact ⟨.text k, List.mem_map.2 ⟨_, hk, rfl⟩, rfl⟩
    | _ => cases h
  | listed vs =>
    by_cases hany : vs.any (·.equal id.value) = true
    · obtain ⟨v, hv, he⟩ := List.any_eq_true.1 hany
      obtain ⟨w, hw⟩ : ∃ w, entryFor vs id = .ok w := by
        simp only [find?, hany, if_true] at h
        cases hw : entryFor vs id with
        | ok w => exact ⟨w, rfl⟩
        | error f => rw [hw] at h; cases h
      obtain ⟨htok, hequal⟩ := number_of_entryFor hw
      rw [hequal, Json.equalNumbers_iff] at he
      obtain ⟨x, hx, hx'⟩ := he
      exact ⟨.number x, List.mem_filterMap.2 ⟨v, hv, by rw [hx]; rfl⟩, by rw [htok, hx']; rfl⟩
    · simp only [find?, hany] at h
      cases h
  | text s =>
    cases id with
    | key k =>
      simp only [find?] at h
      split at h <;> cases h
    | _ => cases h
  | other => cases h

theorem same_of_find? {ds : Definitions} {id : DefId} {d : Json} (h : ds.find? id = .ok (some d)) :
    id.same id = true := by
  obtain ⟨t, -, ht⟩ := token_of_find? h
  exact (DefId.same_iff id id).2 ⟨t, ht, ht⟩

/-- **Ids that are declared and all different are no more than there are definitions.** -/
theorem length_le_count {ds : Definitions} {ids : List DefId} (hne : ids.Pairwise (fun a b => a.same b = false))
    (hd : ∀ id ∈ ids, ∃ d, ds.find? id = .ok (some d)) : ids.length ≤ ds.count := by
  have htok : ∀ id ∈ ids, ∃ t ∈ ds.tokens, id.token? = some t := fun id hid => by
    obtain ⟨d, h⟩ := hd id hid
    exact token_of_find? h
  have hlen : (ids.filterMap DefId.token?).length = ids.length := List.filterMap_length_eq_length.2 fun id hid => by
    obtain ⟨t, -, ht⟩ := htok id hid
    rw [ht]; rfl
  have hnodup : (ids.filterMap DefId.token?).Nodup := List.pairwise_filterMap.2 <|
    hne.imp fun hab t ht u hu htu => by
      subst htu
      rw [(DefId.same_iff _ _).2 ⟨t, ht, hu⟩] at hab
      cases hab
  have hsub : ids.filterMap DefId.token? ⊆ ds.tokens := fun t ht => by
    obtain ⟨id, hid, h⟩ := List.mem_filterMap.1 ht
    obtain ⟨u, hu, hid'⟩ := htok id hid
    rw [h] at hid'; cases hid'
    exact hu
  calc ids.length = (ids.filterMap DefId.token?).length := hlen.symm
    _ ≤ ds.tokens.length := (hnodup.subperm hsub).length_le
    _ ≤ ds.count := ds.length_tokens_le

end Definitions
end TrackingPlan
