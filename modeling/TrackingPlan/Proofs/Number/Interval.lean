import Mathlib.Algebra.Order.Field.Power
import Mathlib.Data.Rat.Lemmas
import Mathlib.Tactic.FieldSimp
import Mathlib.Tactic.Linarith
import Mathlib.Tactic.Positivity
import Mathlib.Tactic.Ring
import TrackingPlan.Number.Shortest
/-!
# Interval — the rationals that round to a number

A number covers the rationals from half way to the number below it up to half way to the number above it, the ends
themselves when its mantissa is even.  `Interval.holds` decides that by whole numbers (`holds_iff`).  Of two numbers of
one sign, the greater starts where the smaller one ends or later, and where both ends meet one mantissa is odd; so no
rational is covered twice (`eq_of_covers`).
-/
namespace TrackingPlan

theorem natCast_zpow (b : ℕ) (hb : b ≠ 0) (z : ℤ) :
    (b : ℚ) ^ z = (Nat.pow b z.toNat : ℕ) / (Nat.pow b (-z).toNat : ℕ) := by
  have hb' : (b : ℚ) ≠ 0 := Nat.cast_ne_zero.2 hb
  have hz : z = (z.toNat : ℤ) - ((-z).toNat : ℤ) := by omega
  conv_lhs => rw [hz, zpow_sub₀ hb', zpow_natCast, zpow_natCast]
  simp

namespace Double

variable {x y : Double} {q : ℚ}

/-- A quarter of the distance to the next number. -/
def quarter (x : Double) : ℚ := 2 ^ (x.scale - 2)

/-- The number of quarters down to the lower end: numbers below a power of two are closer. -/
def reach (x : Double) : ℕ := if x.fraction.val = 0 ∧ 1 < x.exponent.val then 1 else 2

def low (x : Double) : ℚ := (4 * x.mantissa - x.reach) * x.quarter
def high (x : Double) : ℚ := (4 * x.mantissa + 2) * x.quarter

/-- **The number covers a rational**, which then rounds to it. -/
structure Covers (x : Double) (q : ℚ) : Prop where
  low_le : x.low ≤ q
  le_high : q ≤ x.high
  inside : x.mantissa % 2 = 1 → x.low < q ∧ q < x.high

theorem quarter_pos (x : Double) : 0 < x.quarter := zpow_pos (by norm_num) _

theorem quarter_eq (x : Double) :
    x.quarter = (Nat.pow 2 (x.scale - 2).toNat : ℕ) / (Nat.pow 2 (2 - x.scale).toNat : ℕ) := by
  have h := natCast_zpow 2 (by decide) (x.scale - 2)
  rw [show -(x.scale - 2) = 2 - x.scale by ring] at h
  exact_mod_cast h

theorem interval_den_pos (x : Double) : 0 < x.interval.den := Nat.pos_of_ne_zero (by simp [interval])

theorem interval_low (hx : 0 < x.mantissa) : (x.interval.low : ℚ) / x.interval.den = x.low := by
  have hreach : x.reach ≤ 4 * x.mantissa := by unfold reach; split <;> omega
  have hlow : x.interval.low = (4 * x.mantissa - x.reach) * Nat.pow 2 (x.scale - 2).toNat := by
    simp only [interval, reach]
  have hden : x.interval.den = Nat.pow 2 (2 - x.scale).toNat := rfl
  rw [hlow, hden, low, quarter_eq]
  push_cast [Nat.cast_sub hreach]
  ring

theorem interval_high (x : Double) : (x.interval.high : ℚ) / x.interval.den = x.high := by
  rw [high, quarter_eq]
  simp only [interval]
  push_cast
  ring

theorem interval_here (x : Double) : (x.interval.here : ℚ) / x.interval.den = 4 * x.mantissa * x.quarter := by
  rw [quarter_eq]
  simp only [interval]
  push_cast
  ring

/-- **What the interval holds is what the number covers.** -/
theorem holds_iff (hx : 0 < x.mantissa) {num den : ℕ} (hden : 0 < den) :
    x.interval.holds num den = true ↔ x.Covers ((num : ℚ) / den) := by
  have hd : (0 : ℚ) < den := Nat.cast_pos.2 hden
  have hi : (0 : ℚ) < x.interval.den := Nat.cast_pos.2 x.interval_den_pos
  have hle : ∀ a b c d : ℕ, (0 : ℚ) < c → (0 : ℚ) < d → ((a : ℚ) / c ≤ b / d ↔ a * d ≤ b * c) := by
    intro a b c d hc hd
    rw [div_le_div_iff₀ hc hd]
    exact_mod_cast Iff.rfl
  have hlt : ∀ a b c d : ℕ, (0 : ℚ) < c → (0 : ℚ) < d → ((a : ℚ) / c < b / d ↔ a * d < b * c) := by
    intro a b c d hc hd
    rw [div_lt_div_iff₀ hc hd]
    exact_mod_cast Iff.rfl
  have hclosed : x.interval.closed = (x.mantissa % 2 == 0) := rfl
  unfold Interval.holds
  rw [hclosed]
  by_cases heven : x.mantissa % 2 = 0
  · simp only [heven, beq_self_eq_true, if_true, Bool.and_eq_true, decide_eq_true_eq]
    rw [← hle _ _ _ _ hi hd, ← hle _ _ _ _ hd hi, interval_low hx, interval_high]
    exact ⟨fun h => ⟨h.1, h.2, fun hodd => by omega⟩, fun h => ⟨h.low_le, h.le_high⟩⟩
  · have hodd : (x.mantissa % 2 == 0) = false := beq_false_of_ne heven
    simp only [hodd, Bool.false_eq_true, if_false, Bool.and_eq_true, decide_eq_true_eq]
    rw [← hlt _ _ _ _ hi hd, ← hlt _ _ _ _ hd hi, interval_low hx, interval_high]
    exact ⟨fun h => ⟨h.1.le, h.2.le, fun _ => h⟩, fun h => h.inside (by omega)⟩

theorem Covers.of_lt (hlow : x.low < q) (hhigh : q < x.high) : x.Covers q := ⟨hlow.le, hhigh.le, fun _ => ⟨hlow, hhigh⟩⟩

/-! ## No rational is covered twice -/

/-- The first number is the smaller one, both taken without their signs. -/
def Below (x y : Double) : Prop := x.scale < y.scale ∨ x.scale = y.scale ∧ x.mantissa < y.mantissa

theorem mantissa_lt (x : Double) : x.mantissa < 2 * fractionCount := by
  have := x.fraction.isLt
  unfold mantissa fractionCount
  split <;> omega

/-- The mantissa of a number past the least scale is not short of a digit. -/
theorem le_mantissa (hx : -1074 < x.scale) : fractionCount ≤ x.mantissa := by
  unfold scale at hx
  unfold mantissa
  rw [if_neg fun h => by rw [h] at hx; simp at hx]
  omega

theorem below_or_eq (hsign : x.negative = y.negative) : x = y ∨ x.Below y ∨ y.Below x := by
  obtain ⟨sx, ex, fx⟩ := x
  obtain ⟨sy, ey, fy⟩ := y
  obtain rfl : sx = sy := hsign
  have hfx := fx.isLt
  have hfy := fy.isLt
  simp only [Below, scale, mantissa, mk.injEq, true_and, Fin.ext_iff, fractionCount, Fin.val_zero]
  by_cases hx : ex.val = 0 <;> by_cases hy : ey.val = 0 <;> simp only [hx, hy, if_true, if_false, true_and] <;> omega

/-- The numbers below are closer only where they have a lesser scale. -/
theorem reach_of_below (hs : x.scale = y.scale) (hm : x.mantissa < y.mantissa) : y.reach = 2 := by
  refine if_neg fun ⟨hzero, hexponent⟩ => ?_
  have hscale : -1074 < x.scale := by rw [hs, scale]; omega
  have hleast := le_mantissa hscale
  have hy : y.mantissa = fractionCount + y.fraction.val := if_neg fun he => by rw [he] at hexponent; simp at hexponent
  omega

/-- How far down a number reaches that is past the least scale. -/
theorem le_four_mantissa_sub_reach (hy : -1074 < y.scale) : 4 * fractionCount ≤ 4 * y.mantissa - y.reach + 1 := by
  have hleast := le_mantissa hy
  unfold scale at hy
  have hexponent : 1 < y.exponent.val := by omega
  have hne : y.exponent ≠ 0 := fun he => by rw [he] at hexponent; simp at hexponent
  have hm : y.mantissa = fractionCount + y.fraction.val := if_neg hne
  unfold reach
  split <;> omega

theorem quarter_le (h : x.scale < y.scale) : 2 * x.quarter ≤ y.quarter := by
  have hpow : (2 : ℚ) * 2 ^ (x.scale - 2) = 2 ^ (x.scale - 1) := by
    rw [show x.scale - 1 = (x.scale - 2) + 1 by ring, zpow_add_one₀ (by norm_num)]
    ring
  unfold quarter
  rw [hpow]
  exact zpow_le_zpow_right₀ (by norm_num) (by omega)

/-- The first number ends where the second one starts or before that, and before it when both are even. -/
theorem high_le_low (h : x.Below y) : x.high ≤ y.low ∧ (x.mantissa % 2 = 0 → y.mantissa % 2 = 0 → x.high < y.low) := by
  have hx := x.quarter_pos
  rcases h with hs | ⟨hs, hm⟩
  · -- the mantissa of the one is at most the greatest, and that of the other at least the least of its scale
    have hquarter := quarter_le hs
    have hscale : -1074 < y.scale := by unfold scale at hs ⊢; omega
    have hreach : y.reach ≤ 4 * y.mantissa := by
      have := le_mantissa hscale
      unfold reach fractionCount at *
      split <;> omega
    have hleast : (4 * fractionCount - 1 : ℚ) ≤ 4 * y.mantissa - y.reach := by
      have h := le_four_mantissa_sub_reach hscale
      have h' : ((4 * fractionCount : ℕ) : ℚ) ≤ ((4 * y.mantissa - y.reach + 1 : ℕ) : ℚ) := Nat.cast_le.2 h
      push_cast [Nat.cast_sub hreach] at h'
      linarith
    have hcount : (0 : ℚ) < 4 * fractionCount - 1 := by norm_num [fractionCount]
    have hlow : (4 * fractionCount - 1 : ℚ) * (2 * x.quarter) ≤ y.low :=
      mul_le_mul hleast hquarter (by linarith) (by linarith)
    have hgreatest : (x.mantissa : ℚ) + 1 ≤ 2 * fractionCount := by exact_mod_cast x.mantissa_lt
    unfold high
    refine ⟨by nlinarith, fun hxm _ => ?_⟩
    have hlt := x.mantissa_lt
    have heven : (x.mantissa : ℚ) + 2 ≤ 2 * fractionCount := by
      exact_mod_cast (by omega : x.mantissa + 2 ≤ 2 * fractionCount)
    nlinarith
  · have hq : y.quarter = x.quarter := by rw [quarter, quarter, hs]
    have hsucc : (x.mantissa : ℚ) + 1 ≤ y.mantissa := by exact_mod_cast hm
    unfold high low
    rw [hq, reach_of_below hs hm]
    push_cast
    refine ⟨by nlinarith, fun hxm hym => ?_⟩
    have hsucc2 : (x.mantissa : ℚ) + 2 ≤ y.mantissa := by exact_mod_cast (by omega : x.mantissa + 2 ≤ y.mantissa)
    nlinarith

theorem Below.not_covers (h : x.Below y) (hx : x.Covers q) : ¬y.Covers q := by
  intro hy
  obtain ⟨hle, hlt⟩ := high_le_low h
  by_cases hxm : x.mantissa % 2 = 0
  · by_cases hym : y.mantissa % 2 = 0
    · linarith [hlt hxm hym, hx.le_high, hy.low_le]
    · linarith [hx.le_high, (hy.inside (by omega)).1]
  · linarith [hy.low_le, (hx.inside (by omega)).2]

/-- **Numbers of one sign that cover the same rational are the same.** -/
theorem eq_of_covers (hsign : x.negative = y.negative) (hx : x.Covers q) (hy : y.Covers q) : x = y := by
  rcases below_or_eq hsign with h | h | h
  · exact h
  · exact absurd hy (h.not_covers hx)
  · exact absurd hx (h.not_covers hy)

end Double
end TrackingPlan
