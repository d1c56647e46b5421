import TrackingPlan.Proofs.Naming.Run
/-!
# Least — a new id gets the least number that is free

What is asked for is given out as it is when it is free, and otherwise with the least number behind it that makes it so;
all that comes before is taken, so the number is no greater than that of the names taken (`register_least_number`).
-/
namespace TrackingPlan
namespace Namer

/-- **A new id gets what is asked for when that is free in the scope**, and otherwise the least number behind it that
is: in any state of a namer of any dialect, and with no greater number than names are taken in the scope. -/
theorem register_least_number (n : Namer) {id name s : String} (h : n.lookup id s = none) :
    (wanted n.dialect name ∉ (n.scope s).taken → (n.register id name s).1 = wanted n.dialect name) ∧
      (wanted n.dialect name ∈ (n.scope s).taken → ∃ k : Nat, 1 ≤ k ∧ k ≤ (n.scope s).taken.toFinset.card ∧
        (n.register id name s).1 = n.dialect.withSuffix (wanted n.dialect name) k ∧
        n.dialect.withSuffix (wanted n.dialect name) k ∉ (n.scope s).taken ∧
        ∀ i : Nat, 1 ≤ i → i < k → n.dialect.withSuffix (wanted n.dialect name) i ∈ (n.scope s).taken) := by
  obtain ⟨k, hcard, hfree, hnot, hbefore⟩ := freeName_spec n.dialect (n.scope s).taken (wanted n.dialect name)
  rw [register_of_new h, hfree]
  cases k with
  | zero => exact ⟨fun _ => rfl, fun hmem => absurd hmem hnot⟩
  | succ k =>
    refine ⟨fun hbase => absurd (hbefore 0 (Nat.succ_pos k)) hbase, fun _ => ?_⟩
    refine ⟨k + 1, Nat.succ_pos k, hcard, rfl, hnot, fun i hi hik => ?_⟩
    obtain ⟨j, rfl⟩ := Nat.exists_eq_succ_of_ne_zero (Nat.pos_iff_ne_zero.1 hi)
    exact hbefore (j + 1) hik

/-- A reserved word, and what it would be called with the first two numbers. -/
def numberedWords : List Call :=
  [.register "a" "class" defaultScope, .register "b" "class_2" defaultScope, .register "c" "class_1" defaultScope]

/-- The word once more gets the third number, which is as great as it can be. -/
theorem register_least_number_crowded :
    ((ofLanguage .kotlin).run numberedWords).lookup "d" defaultScope = none ∧
      (((ofLanguage .kotlin).run numberedWords).register "d" "class" defaultScope).1 = "class_3" ∧
      ∃ k : Nat, k ≤ (((ofLanguage .kotlin).run numberedWords).scope defaultScope).taken.toFinset.card ∧
        "class_3" = Dialect.kotlin.withSuffix "\x60class\x60" k ∧
        ∀ i : Nat, 1 ≤ i → i < k → Dialect.kotlin.withSuffix "\x60class\x60" i ∈
          (((ofLanguage .kotlin).run numberedWords).scope defaultScope).taken := by
  have hnew : ((ofLanguage .kotlin).run numberedWords).lookup "d" defaultScope = none := by decide +kernel
  have hname : (((ofLanguage .kotlin).run numberedWords).register "d" "class" defaultScope).1 = "class_3" := by
    decide +kernel
  have hwanted : wanted ((ofLanguage .kotlin).run numberedWords).dialect "class" = "\x60class\x60" := by decide +kernel
  have htaken : "\x60class\x60" ∈ (((ofLanguage .kotlin).run numberedWords).scope defaultScope).taken := by
    decide +kernel
  have hdialect : ((ofLanguage .kotlin).run numberedWords).dialect = Dialect.kotlin := rfl
  have hleast := (@register_least_number _ "d" "class" defaultScope hnew).2
  rw [hwanted, hname, hdialect] at hleast
  obtain ⟨k, -, hcard, hk, -, hbefore⟩ := hleast htaken
  exact ⟨hnew, hname, k, hcard, hk, hbefore⟩

end Namer
end TrackingPlan
