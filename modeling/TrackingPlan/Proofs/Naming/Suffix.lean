import Mathlib.Data.Finset.Card
import TrackingPlan.Naming.Namer
import TrackingPlan.Proofs.Number.Digits
/-!
# Suffix — numbers behind a name tell names apart

A name with a number behind it ends in digits, or in a backtick when the whole is reserved; so different numbers make
different names (`withSuffix_injective`), and none makes the name itself (`withSuffix_ne`).  There are more of these
candidates than names taken, so one that is free is always found, and the first such is given out (`freeName_spec`).
-/
namespace TrackingPlan

namespace Dialect

theorem plain_injective {cs : List Char} {m n : Nat}
    (h : String.ofList (cs ++ '_' :: Numeral.natDigits m) = String.ofList (cs ++ '_' :: Numeral.natDigits n)) :
    m = n := by
  have hcs := List.append_cancel_left (String.ofList_injective h)
  exact Numeral.natDigits_injective (List.cons.inj hcs).2

theorem backticked_ne {name : String} {cs : List Char} (n : Nat) :
    "\x60" ++ name ++ "\x60" ≠ String.ofList (cs ++ '_' :: Numeral.natDigits n) := by
  intro h
  have hlast := congrArg (fun s : String => s.toList.getLast?) h
  have hdigits := Numeral.natDigits_ne_nil n
  simp only [String.toList_append, String.toList_ofList, List.getLast?_append, List.getLast?_cons] at hlast
  have hmem : '\x60' ∈ Numeral.natDigits n := by
    refine List.mem_of_getLast? ?_
    cases hd : (Numeral.natDigits n).getLast? with
    | none => exact absurd (List.getLast?_eq_none_iff.1 hd) hdigits
    | some c =>
      rw [hd] at hlast
      exact hlast.symm
  exact Numeral.backtick_not_mem_natDigits n hmem

/-- **Different numbers make different names.** -/
theorem withSuffix_injective (d : Dialect) (base : String) {m n : Nat} (h : d.withSuffix base m = d.withSuffix base n) :
    m = n := by
  unfold withSuffix withEnding at h
  cases he : d.escape with
  | backticks =>
    rw [he] at h
    simp only [escapeIfReserved, escapeReserved, he] at h
    split at h <;> split at h
    · exact plain_injective ((String.append_right_inj _).1 ((String.append_left_inj _).1 h))
    · exact absurd h (backticked_ne n)
    · exact absurd h.symm (backticked_ne m)
    · exact plain_injective h
  | _ => rw [he] at h; exact plain_injective h

theorem countP_dropWhile_backtick (cs : List Char) :
    (cs.dropWhile (· == '\x60')).countP (· != '\x60') = cs.countP (· != '\x60') := by
  induction cs with
  | nil => rfl
  | cons c cs ih =>
    by_cases hc : c = '\x60'
    · simp [hc, ih]
    · simp [hc]

/-- What is stripped off a name is backticks only. -/
theorem countP_stripBackticks (cs : List Char) :
    (stripBackticks cs).countP (· != '\x60') = cs.countP (· != '\x60') := by
  rw [stripBackticks, List.countP_reverse, countP_dropWhile_backtick, List.countP_reverse, countP_dropWhile_backtick]

theorem countP_escapeIfReserved {d : Dialect} (he : d.escape = .backticks) (name : String) :
    (d.escapeIfReserved name).toList.countP (· != '\x60') = name.toList.countP (· != '\x60') := by
  unfold escapeIfReserved
  split
  · simp [escapeReserved, he]
  · rfl

/-- **A number makes a new name**: it has more characters, backticks not counted. -/
theorem withSuffix_ne (d : Dialect) (base : String) (n : Nat) : d.withSuffix base n ≠ base := by
  intro h
  have hcount := congrArg (fun s : String => s.toList.countP (· != '\x60')) h
  unfold withSuffix withEnding at hcount
  cases he : d.escape with
  | backticks =>
    simp only [he, countP_escapeIfReserved he, String.toList_ofList, List.countP_append, countP_stripBackticks,
      List.countP_cons] at hcount
    simp at hcount
  | _ =>
    simp only [he, String.toList_ofList, List.countP_append, List.countP_cons] at hcount
    simp at hcount

end Dialect

namespace Namer

/-- **The names that are tried for a wanted one**, in their order: itself, and then with the numbers behind it. -/
def candidate (d : Dialect) (base : String) : Nat → String
  | 0 => base
  | n + 1 => d.withSuffix base (n + 1 : Nat)

theorem candidate_injective (d : Dialect) (base : String) : Function.Injective (candidate d base)
  | 0, 0, _ => rfl
  | 0, n + 1, h => absurd h.symm (d.withSuffix_ne base (n + 1))
  | m + 1, 0, h => absurd h (d.withSuffix_ne base (m + 1))
  | _ + 1, _ + 1, h => d.withSuffix_injective base h

/-- As many names are taken as candidates in a row are. -/
theorem le_card_of_candidates {d : Dialect} {taken : List String} {base : String} {k : Nat}
    (h : ∀ i < k, candidate d base i ∈ taken) : k ≤ taken.toFinset.card := by
  have hsub : (Finset.range k).image (candidate d base) ⊆ taken.toFinset := by
    intro name hname
    obtain ⟨i, hi, rfl⟩ := Finset.mem_image.1 hname
    exact List.mem_toFinset.2 (h i (Finset.mem_range.1 hi))
  have hcard := Finset.card_le_card hsub
  rwa [Finset.card_image_of_injective _ (candidate_injective d base), Finset.card_range] at hcard

/-- The search passes over taken names only, and ends at one that is free or the last it may try. -/
theorem freeFrom_spec (d : Dialect) (taken : List String) (base : String) : ∀ tries counter : Nat,
    ∃ k, counter ≤ k ∧ freeFrom d taken base (counter + 1) tries = candidate d base (k + 1) ∧
      (∀ i, counter ≤ i → i < k → candidate d base (i + 1) ∈ taken) ∧
      (candidate d base (k + 1) ∈ taken → k = counter + tries)
  | 0, counter => ⟨counter, Nat.le_refl _, rfl, fun i hi hk => absurd hk (Nat.not_lt.2 hi), fun _ => rfl⟩
  | tries + 1, counter => by
    simp only [freeFrom]
    split
    · next hc =>
      obtain ⟨k, hk, hfree, htaken, hlast⟩ := freeFrom_spec d taken base tries (counter + 1)
      refine ⟨k, Nat.le_of_succ_le hk, hfree, fun i hi hik => ?_, fun hmem => by rw [hlast hmem]; omega⟩
      rcases Nat.eq_or_lt_of_le hi with rfl | hi
      · exact List.contains_iff_mem.1 hc
      · exact htaken i hi hik
    · next hc =>
      exact ⟨counter, Nat.le_refl _, rfl, fun i hi hk => absurd hk (Nat.not_lt.2 hi),
        fun hmem => absurd (List.contains_iff_mem.2 hmem) hc⟩

/-- **The name that is given out is the first candidate that is free**, and no more candidates are passed over than
names are taken. -/
theorem freeName_spec (d : Dialect) (taken : List String) (base : String) :
    ∃ k ≤ taken.toFinset.card, freeName d taken base = candidate d base k ∧ candidate d base k ∉ taken ∧
      ∀ i < k, candidate d base i ∈ taken := by
  unfold freeName
  split
  · next hc =>
    obtain ⟨k, -, hfree, htaken, hlast⟩ := freeFrom_spec d taken base taken.length 0
    have hbefore : ∀ i < k + 1, candidate d base i ∈ taken
      | 0, _ => List.contains_iff_mem.1 hc
      | i + 1, hi => htaken i (Nat.zero_le _) (Nat.lt_of_succ_lt_succ hi)
    refine ⟨k + 1, le_card_of_candidates hbefore, hfree, fun hmem => ?_, hbefore⟩
    -- else more candidates would be taken than there are names
    have hall : ∀ i < k + 2, candidate d base i ∈ taken := fun i hi => by
      rcases Nat.eq_or_lt_of_le (Nat.le_of_lt_succ hi) with rfl | hi
      · exact hmem
      · exact hbefore i hi
    have hcard := le_card_of_candidates hall
    have hlen := taken.toFinset_card_le
    have hk := hlast hmem
    omega
  · next hc =>
    exact ⟨0, Nat.zero_le _, rfl, fun hmem => hc (List.contains_iff_mem.2 hmem),
      fun i hi => absurd hi (Nat.not_lt_zero i)⟩

theorem freeName_not_mem (d : Dialect) (taken : List String) (base : String) : freeName d taken base ∉ taken := by
  obtain ⟨k, -, hfree, hnot, -⟩ := freeName_spec d taken base
  rwa [hfree]

/-- A name given out is what was asked for, or that with a number behind it. -/
theorem freeName_cases {d : Dialect} (taken : List String) (base : String) :
    freeName d taken base = base ∨ ∃ n : Nat, 1 ≤ n ∧ freeName d taken base = d.withSuffix base n := by
  obtain ⟨k, -, hfree, -, -⟩ := freeName_spec d taken base
  cases k with
  | zero => exact .inl hfree
  | succ k => exact .inr ⟨k + 1, Nat.succ_pos k, hfree⟩

end Namer
end TrackingPlan
