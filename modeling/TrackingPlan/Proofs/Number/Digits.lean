import Mathlib.Algebra.Ring.Nat
import Mathlib.Data.List.TakeWhile
import TrackingPlan.Number.Numeral
/-!
# Digits — what a whole number is written with

The digits of a number give it back, and no number is without any.  Zeros at their end are a factor
(`ofDigitChars_dropTrailingZeros`), and how many digits there are bounds the number on both sides.
-/
namespace TrackingPlan
namespace Numeral

theorem isDigit_of_mem_natDigits {c : Char} {n : Nat} (h : c ∈ natDigits n) : c.isDigit = true :=
  Nat.isDigit_of_mem_toDigits (by decide) (by decide) h

theorem natDigits_ne_nil (n : Nat) : natDigits n ≠ [] := Nat.toDigits_ne_nil

theorem ofDigitChars_natDigits (n : Nat) : Nat.ofDigitChars 10 (natDigits n) 0 = n := Nat.ofDigitChars_ten_toDigits

theorem natDigits_injective {m n : Nat} (h : natDigits m = natDigits n) : m = n := by
  rw [← ofDigitChars_natDigits m, ← ofDigitChars_natDigits n, h]

theorem backtick_not_mem_natDigits (n : Nat) : '\x60' ∉ natDigits n := fun h => by
  exact absurd (isDigit_of_mem_natDigits h) (by decide)

theorem not_mem_intDigits {c : Char} (hdigit : c.isDigit = false) (hminus : c ≠ '-') (n : Int) : c ∉ intDigits n := by
  have hdigits : ∀ m, c ∉ natDigits m := fun m h => by rw [isDigit_of_mem_natDigits h] at hdigit; cases hdigit
  cases n with
  | ofNat n => exact hdigits n
  | negSucc n => exact List.not_mem_cons_of_ne_of_not_mem hminus (hdigits (n + 1))

theorem minus_natDigits_ne (m n : Nat) : '-' :: natDigits m ≠ natDigits n := fun h =>
  absurd (isDigit_of_mem_natDigits (h ▸ List.mem_cons_self : '-' ∈ natDigits n)) (by decide)

theorem intDigits_injective : ∀ {m n : Int}, intDigits m = intDigits n → m = n
  | .ofNat _, .ofNat _, h => congrArg Int.ofNat (natDigits_injective h)
  | .ofNat m, .negSucc n, h => absurd h.symm (minus_natDigits_ne (n + 1) m)
  | .negSucc m, .ofNat n, h => absurd h (minus_natDigits_ne (m + 1) n)
  | .negSucc _, .negSucc _, h => congrArg Int.negSucc (Nat.succ.inj (natDigits_injective (List.cons.inj h).2))

/-! ## How many digits -/

theorem ten_pow_length_le {n : Nat} (hn : 0 < n) : 10 ^ ((natDigits n).length - 1) ≤ n := by
  by_contra hlt
  have hone : 0 < (natDigits n).length - 1 := by
    refine Nat.pos_of_ne_zero fun he => ?_
    rw [he] at hlt
    omega
  have hlen : (natDigits n).length ≤ (natDigits n).length - 1 :=
    (Nat.length_toDigits_le_iff (by decide) hone).2 (Nat.lt_of_not_le hlt)
  omega

theorem lt_ten_pow_length (n : Nat) : n < 10 ^ (natDigits n).length :=
  (Nat.length_toDigits_le_iff (by decide) (List.length_pos_iff.2 Nat.toDigits_ne_nil)).1 (Nat.le_refl _)

/-! ## Zeros at the end -/

theorem exists_append_replicate (ds : List Char) : ∃ k, ds = dropTrailingZeros ds ++ List.replicate k '0' := by
  have hzeros : ∀ c ∈ ds.reverse.takeWhile (· == '0'), c = '0' := fun c hc => by
    simpa using List.mem_takeWhile_imp hc
  refine ⟨(ds.reverse.takeWhile (· == '0')).length, ?_⟩
  calc ds = (ds.reverse.takeWhile (· == '0') ++ ds.reverse.dropWhile (· == '0')).reverse := by
        rw [List.takeWhile_append_dropWhile, List.reverse_reverse]
    _ = dropTrailingZeros ds ++ (ds.reverse.takeWhile (· == '0')).reverse := List.reverse_append
    _ = _ := by rw [← List.reverse_replicate, ← List.eq_replicate_of_mem hzeros]

/-- What the zeros at the end count for. -/
theorem ofDigitChars_dropTrailingZeros (ds : List Char) : Nat.ofDigitChars 10 ds 0 =
    Nat.ofDigitChars 10 (dropTrailingZeros ds) 0 * 10 ^ (ds.length - (dropTrailingZeros ds).length) := by
  obtain ⟨k, hk⟩ := exists_append_replicate ds
  have hlen := congrArg List.length hk
  rw [List.length_append, List.length_replicate] at hlen
  rw [show ds.length - (dropTrailingZeros ds).length = k by omega]
  calc Nat.ofDigitChars 10 ds 0 = Nat.ofDigitChars 10 (dropTrailingZeros ds ++ List.replicate k '0') 0 := by rw [← hk]
    _ = Nat.ofDigitChars 10 (dropTrailingZeros ds) 0 * 10 ^ k := by
        rw [Nat.ofDigitChars_append, Nat.ofDigitChars_replicate_zero, Nat.mul_comm]

theorem length_dropTrailingZeros_le (ds : List Char) : (dropTrailingZeros ds).length ≤ ds.length := by
  obtain ⟨k, hk⟩ := exists_append_replicate ds
  have hlen := congrArg List.length hk
  rw [List.length_append] at hlen
  omega

/-! ## Nothing but digits -/

def AllDigits (cs : List Char) : Prop := ∀ c ∈ cs, c.isDigit = true

namespace AllDigits

variable {cs ds : List Char}

theorem natDigits (n : Nat) : AllDigits (natDigits n) := fun _ => isDigit_of_mem_natDigits

theorem zeros (n : Nat) : AllDigits (List.replicate n '0') := fun c hc => by rw [List.eq_of_mem_replicate hc]; rfl

theorem cons {d : Char} (hd : d.isDigit = true) (hds : AllDigits ds) : AllDigits (d :: ds) := fun c hc =>
  (List.mem_cons.1 hc).elim (fun h => by rw [h, hd]) (hds c)

theorem append (hcs : AllDigits cs) (hds : AllDigits ds) : AllDigits (cs ++ ds) := fun c hc =>
  (List.mem_append.1 hc).elim (hcs c) (hds c)

theorem take (hds : AllDigits ds) (n : Nat) : AllDigits (ds.take n) := fun c hc => hds c (List.mem_of_mem_take hc)

theorem drop (hds : AllDigits ds) (n : Nat) : AllDigits (ds.drop n) := fun c hc => hds c (List.mem_of_mem_drop hc)

theorem dropTrailingZeros (hds : AllDigits ds) : AllDigits (dropTrailingZeros ds) := fun c hc => by
  obtain ⟨k, hk⟩ := exists_append_replicate ds
  rw [hk] at hds
  exact hds c (List.mem_append_left _ hc)

/-- No digit is a mark. -/
theorem ne_mark (hds : AllDigits ds) {mark : Char} (hmark : mark.isDigit = false) : ∀ c ∈ ds, (c != mark) = true :=
  fun c hc => bne_iff_ne.2 fun h => by rw [← h, hds c hc] at hmark; cases hmark

end AllDigits

end Numeral
end TrackingPlan
