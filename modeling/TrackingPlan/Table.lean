/-!
# Table — entries under keys, in the order of first entry

A table is a list of key and entry; looking up takes the first entry of a key (`List.lookup`).  `set` writes an entry in
its old place, or at the end for a new key, so it never gives a key two entries.
-/
namespace TrackingPlan
namespace Table

variable {κ α : Type} [DecidableEq κ]

def set (k : κ) (v : α) : List (κ × α) → List (κ × α)
  | [] => [(k, v)]
  | (l, w) :: t => if l = k then (k, v) :: t else (l, w) :: set k v t

def ofEntries (es : List (κ × α)) : List (κ × α) := es.foldl (fun t e => set e.1 e.2 t) []

/-! ## What a table holds after a write -/

theorem lookup_set_self (k : κ) (v : α) (t : List (κ × α)) : (set k v t).lookup k = some v := by
  induction t with
  | nil => simp [set]
  | cons e t ih =>
    unfold set; split
    · simp
    · next h => rw [List.lookup_cons, beq_false_of_ne (Ne.symm h)]; exact ih

theorem lookup_set_of_ne {k l : κ} (h : l ≠ k) (v : α) (t : List (κ × α)) :
    (set k v t).lookup l = t.lookup l := by
  induction t with
  | nil => simp [set, List.lookup_cons, beq_false_of_ne h]
  | cons e t ih =>
    obtain ⟨m, w⟩ := e
    unfold set; split
    · next hm => rw [List.lookup_cons, List.lookup_cons, hm, beq_false_of_ne h]
    · rw [List.lookup_cons, List.lookup_cons, ih]

theorem set_of_not_mem {k : κ} (v : α) : ∀ {t : List (κ × α)}, k ∉ t.map Prod.fst → set k v t = t ++ [(k, v)]
  | [], _ => rfl
  | (l, w) :: t, h => by
    rw [List.map_cons, List.mem_cons, not_or] at h
    rw [set, if_neg (Ne.symm h.1), set_of_not_mem v h.2, List.cons_append]

/-- Entries under new and different keys come behind those of the table, in their order. -/
theorem foldl_set_of_nodup (es : List (κ × α)) : ∀ t : List (κ × α), ((t ++ es).map Prod.fst).Nodup →
    es.foldl (fun t e => set e.1 e.2 t) t = t ++ es := by
  induction es with
  | nil => exact fun t _ => (List.append_nil t).symm
  | cons e es ih =>
    intro t ht
    have hnew : e.1 ∉ t.map Prod.fst := by
      rw [List.map_append, List.nodup_append] at ht
      exact fun hmem => ht.2.2 _ hmem _ List.mem_cons_self rfl
    have hassoc : t ++ e :: es = t ++ [e] ++ es := by rw [List.append_assoc, List.singleton_append]
    rw [List.foldl_cons, set_of_not_mem e.2 hnew, hassoc]
    exact ih _ (by rw [← hassoc]; exact ht)

/-- **Entries under different keys are all kept**, in their order. -/
theorem ofEntries_of_nodup {es : List (κ × α)} (h : (es.map Prod.fst).Nodup) : ofEntries es = es :=
  foldl_set_of_nodup es [] h

/-! ## What a lookup finds -/

theorem mem_of_lookup {t : List (κ × α)} {k : κ} {v : α} (h : t.lookup k = some v) : (k, v) ∈ t := by
  obtain ⟨l₁, l₂, rfl, -⟩ := List.lookup_eq_some_iff.1 h
  simp

theorem lookup_of_mem {t : List (κ × α)} (ht : (t.map Prod.fst).Nodup) {k : κ} {v : α} (h : (k, v) ∈ t) :
    t.lookup k = some v := by
  induction t with
  | nil => cases h
  | cons e t ih =>
    rw [List.map_cons, List.nodup_cons] at ht
    rcases List.mem_cons.1 h with rfl | h
    · exact List.lookup_cons_self
    · have hne : k ≠ e.1 := fun he => ht.1 (he ▸ List.mem_map.2 ⟨_, h, rfl⟩)
      rw [List.lookup_cons, beq_false_of_ne hne]
      exact ih ht.2 h

theorem lookup_map {β : Type} (f : α → β) (t : List (κ × α)) (k : κ) :
    (t.map (fun e => (e.1, f e.2))).lookup k = (t.lookup k).map f := by
  induction t with
  | nil => rfl
  | cons e t ih =>
    rw [List.map_cons, List.lookup_cons, List.lookup_cons, ih]
    cases k == e.1 <;> rfl

end Table
end TrackingPlan
