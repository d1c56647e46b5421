import TrackingPlan.Proofs.Naming.Usable
/-!
# Verbatim — names that differ by an at sign only

With an at sign in front a reserved word is the same identifier as without.  No reserved word is given out bare, so
names that differ stay different without their at signs (`clash_of_verbatim`), but for one case: a number goes behind
the escaped word and leaves the at sign in front, while the word with that number is no reserved one and can be asked
for as it stands (`distinct_iff_no_numbered_word`, `numbered_word_clashes`).
-/
namespace TrackingPlan

namespace Dialect

variable {d : Dialect} {m m' : String}

/-- **The identifier that a name stands for**: an at sign in front is set aside. -/
def withoutAt (name : String) : String :=
  match name.toList with
  | '@' :: cs => String.ofList cs
  | _ => name

/-- A name with a number behind it. -/
def withNumber (name : String) (n : Nat) : String := name ++ "_" ++ Numeral.nat n

/-- **The names of a dialect that escapes by an at sign**: an identifier that is not reserved, or behind an at sign a
reserved word or one with a number. -/
inductive VerbatimName (d : Dialect) : String → Prop where
  | plain {m : String} (h : d.isPlainIdentifier m.toList = true) : VerbatimName d m
  | escaped {w : String} (h : d.isReserved w = true) : VerbatimName d ("@" ++ w)
  | numbered {w : String} {n : Nat} (h : d.isReserved w = true) (hn : 1 ≤ n) : VerbatimName d ("@" ++ withNumber w n)

theorem withoutAt_at (w : String) : withoutAt ("@" ++ w) = w := by
  unfold withoutAt
  rw [String.toList_append]
  exact String.ofList_toList

theorem withoutAt_plain (h : d.isPlainIdentifier m.toList = true) : withoutAt m = m := by
  obtain ⟨hid, -⟩ := isPlainIdentifier_iff.1 h
  unfold withoutAt
  split
  · next cs hcs =>
    have hat := hid.legal '@' (by rw [hcs]; exact List.mem_cons_self)
    cases hdollar : d.dollar <;> simp [isLegal, hdollar] at hat
  · rfl

theorem withoutAt_withNumber (hd : d.LetterWords) {w : String} (hw : d.isReserved w = true) (n : Nat) :
    withoutAt (withNumber w n) = withNumber w n := by
  unfold withoutAt
  split
  · next cs hcs =>
    -- the at sign would stand in the word, or in front of the number of no word at all
    cases hw' : w.toList with
    | nil => simp [withNumber, hw'] at hcs
    | cons c ws =>
      have hc : c = '@' := by
        simp only [withNumber, String.toList_append, hw', List.cons_append] at hcs
        exact (List.cons.inj hcs).1
      have hmem : c ∈ w.toList := by rw [hw']; exact List.mem_cons_self
      have hfree : d.isReserved (String.ofList w.toList) = false :=
        isReserved_eq_false hd hmem (by rw [hc]; decide) (by rw [hc]; decide)
          (fun he => by rw [he, hc] at hw'; cases hw')
      rw [String.ofList_toList, hw] at hfree
      cases hfree
  · rfl

theorem not_reserved_of_plain (h : d.isPlainIdentifier m.toList = true) : d.isReserved m = false := by
  rw [← String.ofList_toList (s := m)]
  exact (isPlainIdentifier_iff.1 h).2

/-- A name that is all of an escaped one but its at sign has a number: reserved words are not given out bare. -/
theorem numbered_of_plain (h : d.isPlainIdentifier m.toList = true) (h' : d.VerbatimName m') (hne : m ≠ m')
    (he : withoutAt m' = m) :
    ∃ w n, d.isReserved w = true ∧ 1 ≤ n ∧ m' = "@" ++ withNumber w n ∧ m = withNumber w n := by
  cases h' with
  | plain hp => exact absurd (he.symm.trans (withoutAt_plain hp)) hne
  | @escaped w hw =>
    rw [withoutAt_at] at he
    rw [he, not_reserved_of_plain h] at hw
    cases hw
  | @numbered w n hw hn =>
    rw [withoutAt_at] at he
    exact ⟨w, n, hw, hn, rfl, he.symm⟩

/-- **Two names that stand for one identifier** are a reserved word with a number, once escaped and once bare. -/
theorem clash_of_verbatim (h : d.VerbatimName m) (h' : d.VerbatimName m') (hne : m ≠ m')
    (he : withoutAt m = withoutAt m') :
    ∃ w n, d.isReserved w = true ∧ 1 ≤ n ∧
      ((m = "@" ++ withNumber w n ∧ m' = withNumber w n) ∨ (m' = "@" ++ withNumber w n ∧ m = withNumber w n)) := by
  have hat : ∀ {m : String}, d.VerbatimName m → d.isPlainIdentifier m.toList = true ∨ m = "@" ++ withoutAt m := by
    intro m hm
    cases hm with
    | plain hp => exact .inl hp
    | escaped => exact .inr (by rw [withoutAt_at])
    | numbered => exact .inr (by rw [withoutAt_at])
  rcases hat h with hp | hm
  · obtain ⟨w, n, hw, hn, hm', hm⟩ := numbered_of_plain hp h' hne (he.symm.trans (withoutAt_plain hp))
    exact ⟨w, n, hw, hn, .inr ⟨hm', hm⟩⟩
  · rcases hat h' with hp | hm'
    · obtain ⟨w, n, hw, hn, hm, hm'⟩ := numbered_of_plain hp h hne.symm (he.trans (withoutAt_plain hp))
      exact ⟨w, n, hw, hn, .inl ⟨hm, hm'⟩⟩
    · exact absurd (hm.trans ((congrArg ("@" ++ ·) he).trans hm'.symm)) hne

end Dialect

namespace Namer

open Dialect (withoutAt withNumber VerbatimName)

theorem verbatim_freeName {d : Dialect} (hd : d.LetterWords) (he : d.escape = .atSign) :
    Gives d d.VerbatimName := by
  intro taken name
  have hat : ∀ cs, Dialect.escaped d cs = '@' :: cs := fun cs => by simp [Dialect.escaped, he]
  obtain ⟨cs, hcs, ⟨hr, hw⟩ | ⟨hr, hw⟩⟩ := wanted_cases hd name <;> rw [hw] <;>
    rcases freeName_cases (d := d) taken _ with hf | ⟨n, hn, hf⟩ <;> rw [hf]
  · refine .plain (Dialect.isPlainIdentifier_iff.2 ?_)
    rw [String.toList_ofList]
    exact ⟨hcs, hr⟩
  · rw [Dialect.withSuffix_identifier hd hcs]
    refine .plain (Dialect.isPlainIdentifier_iff.2 ?_)
    rw [String.toList_ofList]
    exact ⟨hcs.numbered n, Dialect.isReserved_numbered hd hcs n⟩
  · have heq : String.ofList (Dialect.escaped d cs) = "@" ++ String.ofList cs := by
      apply String.toList_injective
      simp [hat]
    rw [heq]
    exact .escaped hr
  · have heq : d.withSuffix (String.ofList (Dialect.escaped d cs)) n = "@" ++ withNumber (String.ofList cs) n := by
      rw [Dialect.withSuffix_escaped hd hcs, he]
      apply String.toList_injective
      simp [withNumber, Dialect.numbered, Numeral.nat]
    rw [heq]
    exact .numbered hr hn

/-- **When the names of a scope are all different identifiers** after any calls: exactly when no reserved word is held
with one number both behind an at sign and bare. -/
theorem distinct_iff_no_numbered_word (calls : List Call) (s : String) :
    (∀ i j m m', ((ofLanguage .csharp).run calls).lookup i s = some m →
        ((ofLanguage .csharp).run calls).lookup j s = some m' → i ≠ j → withoutAt m ≠ withoutAt m') ↔
      ¬∃ i j w k, Dialect.csharp.isReserved w = true ∧ 1 ≤ k ∧
        ((ofLanguage .csharp).run calls).lookup i s = some ("@" ++ withNumber w k) ∧
        ((ofLanguage .csharp).run calls).lookup j s = some (withNumber w k) := by
  have hforms := ((holds_fresh .csharp Dialect.csharp.VerbatimName).run calls
    (verbatim_freeName (Dialect.letterWords_ofLanguage .csharp) rfl)).1
  have horderly := (orderly_fresh .csharp).run calls
  constructor
  · rintro h ⟨i, j, w, k, hw, -, hi, hj⟩
    refine h i j _ _ hi hj ?_ ?_
    · rintro rfl
      have hsame := congrArg String.length (Option.some.inj (hi.symm.trans hj))
      rw [String.length_append] at hsame
      exact absurd hsame (by rw [show "@".length = 1 from rfl]; omega)
    · rw [Dialect.withoutAt_at, Dialect.withoutAt_withNumber (Dialect.letterWords_ofLanguage .csharp) hw]
  · intro h i j m m' hi hj hij he
    have hne : m ≠ m' := by
      rintro rfl
      exact hij (horderly.injective s i j m hi hj)
    have hclash := Dialect.clash_of_verbatim (hforms i s m hi) (hforms j s m' hj) hne he
    obtain ⟨w, k, hw, hk, ⟨rfl, rfl⟩ | ⟨rfl, rfl⟩⟩ := hclash
    · exact h ⟨i, j, w, k, hw, hk, hi, hj⟩
    · exact h ⟨j, i, w, k, hw, hk, hj, hi⟩

/-- One reserved word twice, and then the same word with a number as it stands. -/
def clashing : List Call :=
  [.register "a" "class" defaultScope, .register "b" "class" defaultScope, .register "c" "class_1" defaultScope]

/-- **A reserved word with its number clashes** with the same text asked for as it stands. -/
theorem numbered_word_clashes :
    ((ofLanguage .csharp).run clashing).lookup "b" defaultScope = some "@class_1" ∧
      ((ofLanguage .csharp).run clashing).lookup "c" defaultScope = some "class_1" ∧
      withoutAt "@class_1" = withoutAt "class_1" :=
  ⟨by decide +kernel, by decide +kernel, by decide +kernel⟩

end Namer
end TrackingPlan
