import Mathlib.Data.Nat.Cast.Order.Field
import TrackingPlan.Proofs.Number.Digits
import TrackingPlan.Proofs.Number.Interval
/-!
# Shortest — the shortest decimal rounds to its number

A grid of seventeen digits is so fine that its point nearest to a number lies among the rationals that the number covers
(`onGrid_seventeen`); so one of the grids tried has a point there, and what `shortest` takes is covered
(`shortest_covers`).
-/
namespace TrackingPlan

def Decimal.value (d : Decimal) : ℚ := d.coefficient * (10 : ℚ) ^ d.exponent

namespace Double

variable {x : Double} {i : Interval} {d : Decimal} {e : ℤ}

/-! ## The leading digit -/

/-- A quotient of one or more is not below its leading digit's place. -/
theorem ten_pow_le_quotient {num den : ℕ} (hden : 0 < den) (hle : den ≤ num) :
    (10 : ℚ) ^ ((Numeral.natDigits (num / den)).length - 1) ≤ num / den := by
  have hdigits := Numeral.ten_pow_length_le (Nat.div_pos hle hden)
  calc (10 : ℚ) ^ ((Numeral.natDigits (num / den)).length - 1) ≤ ((num / den : ℕ) : ℚ) := by exact_mod_cast hdigits
    _ ≤ num / den := Nat.cast_div_le

/-- Nor is one below one, whose place is told by the digits of the reciprocal. -/
theorem inv_ten_pow_le_quotient {num den : ℕ} (hnum : 0 < num) (hden : 0 < den) :
    ((10 : ℚ) ^ (Numeral.natDigits (den / num)).length)⁻¹ ≤ num / den := by
  have hlt : den < num * 10 ^ (Numeral.natDigits (den / num)).length := by
    rw [Nat.mul_comm]
    exact (Nat.div_lt_iff_lt_mul hnum).1 (Numeral.lt_ten_pow_length (den / num))
  have hcast : (den : ℚ) ≤ num * 10 ^ (Numeral.natDigits (den / num)).length := by exact_mod_cast hlt.le
  rw [← one_div, div_le_div_iff₀ (by positivity) (Nat.cast_pos.2 hden), one_mul]
  exact hcast

/-- **The leading digit stands at its place or before it.** -/
theorem ten_zpow_leading_le (hhere : 0 < i.here) (hden : 0 < i.den) : (10 : ℚ) ^ (i.leading - 1) ≤ i.here / i.den := by
  have hinv : ∀ n : ℕ, (10 : ℚ) ^ (-(n : ℤ)) = (10 ^ n)⁻¹ := fun n => by rw [zpow_neg, zpow_natCast]
  have hpos : ∀ n, 0 < (Numeral.natDigits n).length := fun n => List.length_pos_iff.2 (Numeral.natDigits_ne_nil n)
  unfold Interval.leading
  split
  · next hle =>
    have hplace := ten_pow_le_quotient hden hle
    have hlen := hpos (i.here / i.den)
    unfold Numeral.natDigits at hplace hlen
    rw [← zpow_natCast, Nat.cast_sub hlen] at hplace
    exact hplace
  · have hplace := inv_ten_pow_le_quotient hhere hden
    have hlen := hpos (i.den / i.here)
    unfold Numeral.natDigits at hplace hlen
    simp only
    generalize (Nat.toDigits 10 (i.den / i.here)).length = c at hplace hlen ⊢
    split
    · -- the number is the power of ten itself
      next heq =>
      have hcast : (i.den : ℚ) = i.here * 10 ^ (c - 1) := by exact_mod_cast heq
      have hne : (i.here : ℚ) ≠ 0 := Nat.cast_ne_zero.2 hhere.ne'
      rw [show 2 - (c : ℤ) - 1 = -((c - 1 : ℕ) : ℤ) by omega, hinv, hcast, div_mul_cancel_left₀ hne]
    · rwa [show 1 - (c : ℤ) - 1 = -(c : ℤ) by omega, hinv]

/-! ## The grid -/

/-- A rounded quotient is at most half a unit off. -/
theorem roundQuotient_near (num : ℕ) {den : ℕ} (hden : 0 < den) :
    2 * num ≤ (2 * roundQuotient num den + 1) * den ∧ 2 * roundQuotient num den * den ≤ 2 * num + den := by
  have hdiv := Nat.div_add_mod num den
  have hmod := Nat.mod_lt num hden
  unfold roundQuotient
  simp only
  generalize num / den = k at *
  generalize num % den = r at *
  have hcomm : k * den = den * k := Nat.mul_comm k den
  split
  · rw [show (2 * (k + 1) + 1) * den = 2 * (k * den) + 3 * den by ring,
      show 2 * (k + 1) * den = 2 * (k * den) + 2 * den by ring]
    omega
  · rw [show (2 * k + 1) * den = 2 * (k * den) + den by ring, show 2 * k * den = 2 * (k * den) by ring]
    omega

theorem abs_roundQuotient_sub_le (num : ℕ) {den : ℕ} (hden : 0 < den) :
    |(roundQuotient num den : ℚ) - num / den| ≤ 1 / 2 := by
  obtain ⟨hlow, hhigh⟩ := roundQuotient_near num hden
  have hd : (0 : ℚ) < den := Nat.cast_pos.2 hden
  have hlow' : (2 * num : ℚ) ≤ (2 * roundQuotient num den + 1) * den := by exact_mod_cast hlow
  have hhigh' : (2 * roundQuotient num den * den : ℚ) ≤ 2 * num + den := by exact_mod_cast hhigh
  generalize (roundQuotient num den : ℚ) = z at *
  rw [abs_le]
  constructor
  · rw [neg_le_sub_iff_le_add, div_le_iff₀ hd]
    linarith
  · rw [sub_le_iff_le_add, ← sub_le_iff_le_add', le_div_iff₀ hd]
    linarith

/-- Whether a point of a grid reads back. -/
def Interval.reads (i : Interval) (e : ℤ) (c : ℕ) : Bool := i.holds (c * Nat.pow 10 e.toNat) (Nat.pow 10 (-e).toNat)

/-- The point of a grid that is nearest to the number. -/
def Interval.nearest (i : Interval) (e : ℤ) : ℕ :=
  roundQuotient (i.here * Nat.pow 10 (-e).toNat) (i.den * Nat.pow 10 e.toNat)

theorem onGrid_eq (i : Interval) (e : ℤ) : ∃ other, i.onGrid e =
    if i.reads e (i.nearest e) then some ⟨i.nearest e, e⟩ else if i.reads e other then some ⟨other, e⟩ else none :=
  ⟨_, rfl⟩

theorem reads_iff (hx : 0 < x.mantissa) (c : ℕ) : x.interval.reads e c = true ↔ x.Covers (Decimal.value ⟨c, e⟩) := by
  have hpow : (10 : ℚ) ^ e = (Nat.pow 10 e.toNat : ℕ) / (Nat.pow 10 (-e).toNat : ℕ) := natCast_zpow 10 (by decide) e
  have hpos : 0 < Nat.pow 10 (-e).toNat := Nat.pow_pos (by decide)
  rw [Interval.reads, holds_iff hx hpos, Decimal.value, hpow, Nat.cast_mul, mul_div_assoc]

/-- A point of the grid that reads back is covered. -/
theorem covers_of_onGrid (hx : 0 < x.mantissa) (h : x.interval.onGrid e = some d) : x.Covers d.value := by
  obtain ⟨other, heq⟩ := onGrid_eq x.interval e
  rw [heq] at h
  split at h
  · next hreads =>
    cases h
    exact (reads_iff hx _).1 hreads
  · split at h
    · next hreads =>
      cases h
      exact (reads_iff hx _).1 hreads
    · cases h

/-- The nearest point of a grid is at most half a step off. -/
theorem abs_nearest_sub_le (x : Double) (e : ℤ) :
    |(x.interval.nearest e : ℚ) * 10 ^ e - 4 * x.mantissa * x.quarter| ≤ 10 ^ e / 2 := by
  have hpow : (10 : ℚ) ^ e = (Nat.pow 10 e.toNat : ℕ) / (Nat.pow 10 (-e).toNat : ℕ) := natCast_zpow 10 (by decide) e
  have hstep : (0 : ℚ) < 10 ^ e := zpow_pos (by norm_num) e
  have hden : 0 < x.interval.den * Nat.pow 10 e.toNat := Nat.mul_pos x.interval_den_pos (Nat.pow_pos (by decide))
  have hnear := abs_roundQuotient_sub_le (x.interval.here * Nat.pow 10 (-e).toNat) hden
  have hquotient : ((x.interval.here * Nat.pow 10 (-e).toNat : ℕ) : ℚ) / (x.interval.den * Nat.pow 10 e.toNat : ℕ) =
      4 * x.mantissa * x.quarter / 10 ^ e := by
    rw [← interval_here, hpow, Nat.cast_mul, Nat.cast_mul, div_div_eq_mul_div, div_mul_eq_mul_div, div_div]
  rw [hquotient] at hnear
  have hscaled : (x.interval.nearest e : ℚ) * 10 ^ e - 4 * x.mantissa * x.quarter =
      (x.interval.nearest e - 4 * x.mantissa * x.quarter / 10 ^ e) * 10 ^ e := by field_simp
  rw [hscaled, abs_mul, abs_of_pos hstep]
  calc _ ≤ 1 / 2 * (10 : ℚ) ^ e := mul_le_mul_of_nonneg_right hnear hstep.le
    _ = 10 ^ e / 2 := by ring

theorem reach_pos (x : Double) : 1 ≤ x.reach ∧ x.reach ≤ 2 := by
  unfold reach
  split <;> omega

/-- A grid whose half step is within the number's reach has a point that reads back. -/
theorem onGrid_of_fine (hx : 0 < x.mantissa) (hfine : (10 : ℚ) ^ e / 2 < x.reach * x.quarter) :
    ∃ d, x.interval.onGrid e = some d := by
  obtain ⟨hbelow, habove⟩ := abs_le.1 (abs_nearest_sub_le x e)
  have hreach : (x.reach : ℚ) ≤ 2 := by exact_mod_cast x.reach_pos.2
  have hq := x.quarter_pos
  have htwo : (x.reach : ℚ) * x.quarter ≤ 2 * x.quarter := mul_le_mul_of_nonneg_right hreach hq.le
  have hcovers : x.Covers (Decimal.value ⟨x.interval.nearest e, e⟩) := by
    refine .of_lt ?_ ?_
    · rw [low, sub_mul, Decimal.value]
      linarith
    · rw [high, add_mul, Decimal.value]
      linarith
  obtain ⟨other, heq⟩ := onGrid_eq x.interval e
  exact ⟨⟨x.interval.nearest e, e⟩, by rw [heq, if_pos ((reads_iff hx _).2 hcovers)]⟩

/-! ## The shortest decimal -/

theorem isZero_iff : x.isZero = true ↔ x.exponent = 0 ∧ x.fraction = 0 := by
  rw [isZero, Bool.and_eq_true, beq_iff_eq, beq_iff_eq]

theorem isFinite_of_isZero (hz : x.isZero = true) : x.isFinite = true := by
  rw [isFinite, (isZero_iff.1 hz).1]
  rfl

theorem mantissa_pos (hz : x.isZero = false) : 0 < x.mantissa := by
  unfold mantissa
  split
  · next he =>
    refine Nat.pos_of_ne_zero fun hf => ?_
    have hfraction : x.fraction = 0 := Fin.ext hf
    rw [isZero, he, hfraction] at hz
    cases hz
  · exact Nat.lt_of_lt_of_le (by decide) (Nat.le_add_right fractionCount _)

theorem low_pos (hx : 0 < x.mantissa) : 0 < x.low := by
  have hone : (1 : ℚ) ≤ x.mantissa := by exact_mod_cast hx
  have hreach : (x.reach : ℚ) ≤ 2 := by exact_mod_cast x.reach_pos.2
  exact mul_pos (by linarith) x.quarter_pos

/-- The mantissa has less than seventeen digits, and less than half of that where the numbers below are closer. -/
theorem mantissa_lt_reach (x : Double) : 2 * x.mantissa < x.reach * 10 ^ 16 := by
  have hlt := x.mantissa_lt
  unfold fractionCount at hlt
  unfold reach
  split
  · next h =>
    have hm : x.mantissa = fractionCount + x.fraction.val := if_neg fun he => by rw [he] at h; simp at h
    rw [hm, h.1]
    decide
  · omega

/-- **A grid of seventeen digits has a point that reads back.** -/
theorem onGrid_seventeen (hx : 0 < x.mantissa) : ∃ d, x.interval.onGrid (x.interval.leading - 17) = some d := by
  have hq := x.quarter_pos
  have hvalue : (x.interval.here : ℚ) / x.interval.den = 4 * x.mantissa * x.quarter := x.interval_here
  have hm : (0 : ℚ) < x.mantissa := Nat.cast_pos.2 hx
  have hd : (0 : ℚ) < x.interval.den := Nat.cast_pos.2 x.interval_den_pos
  have hhere : 0 < x.interval.here := by
    refine Nat.pos_of_ne_zero fun hzero => ?_
    rw [hzero, Nat.cast_zero, zero_div] at hvalue
    have hpos : 0 < 4 * x.mantissa * x.quarter := by positivity
    linarith
  have hleading := ten_zpow_leading_le hhere x.interval_den_pos
  rw [hvalue] at hleading
  have hstep : (10 : ℚ) ^ (x.interval.leading - 17) * 10 ^ 16 = 10 ^ (x.interval.leading - 1) := by
    rw [← zpow_natCast, ← zpow_add₀ (by norm_num)]
    congr 1
    push_cast
    ring
  have hdigits : (2 * x.mantissa : ℚ) < x.reach * 10 ^ 16 := by exact_mod_cast x.mantissa_lt_reach
  refine onGrid_of_fine hx ?_
  have hscaled : (10 : ℚ) ^ (x.interval.leading - 17) / 2 * 10 ^ 16 < x.reach * x.quarter * 10 ^ 16 :=
    calc (10 : ℚ) ^ (x.interval.leading - 17) / 2 * 10 ^ 16 = 10 ^ (x.interval.leading - 1) / 2 := by rw [← hstep]; ring
      _ ≤ 2 * x.mantissa * x.quarter := by linarith
      _ < x.reach * 10 ^ 16 * x.quarter := mul_lt_mul_of_pos_right hdigits hq
      _ = x.reach * x.quarter * 10 ^ 16 := by ring
  exact lt_of_mul_lt_mul_right hscaled (by norm_num)

/-- **The shortest decimal reads back**: the number covers it. -/
theorem covers_shortest (hx : 0 < x.mantissa) : x.Covers x.shortest.value := by
  obtain ⟨d, hd⟩ := onGrid_seventeen hx
  have hfound : ((List.range' 1 17).findSome? fun n : ℕ => x.interval.onGrid (x.interval.leading - n)).isSome = true :=
    List.findSome?_isSome_iff.2 ⟨17, by decide, by rw [show ((17 : ℕ) : ℤ) = 17 from rfl, hd]; rfl⟩
  obtain ⟨f, hf⟩ := Option.isSome_iff_exists.1 hfound
  obtain ⟨n, -, hn⟩ := List.exists_of_findSome?_eq_some hf
  have hshortest : x.shortest = f := by
    unfold shortest
    simp only
    rw [hf, Option.getD_some]
  rw [hshortest]
  exact covers_of_onGrid hx hn

theorem shortest_value_pos (hx : 0 < x.mantissa) : 0 < x.shortest.value :=
  lt_of_lt_of_le (low_pos hx) (covers_shortest hx).low_le

theorem shortest_coefficient_ne (hx : 0 < x.mantissa) : x.shortest.coefficient ≠ 0 := fun h => by
  have hpos := shortest_value_pos hx
  rw [Decimal.value, h] at hpos
  simp at hpos

end Double
end TrackingPlan
