import TrackingPlan.Proofs.Json.Equality
import TrackingPlan.Proofs.Number.Numeral
import TrackingPlan.Proofs.Payload
/-!
# Scalar — one type and one value

A value repeats another one when it is of its type and equal to it (`Json.Repeats`): `true`, `1` and `1.0` are equal,
but none of them repeats another.  Finite numbers are covered by their own values, so two of them that are equal are
one, the zeros apart (`Double.eq_or_isZero_of_value?`).  Hence scalars are the same exactly when they repeat each other
(`Json.sameScalar_iff`), unless they are no numbers.
-/
namespace TrackingPlan

/-! ## The value of a number -/

namespace Double

variable {x y : Double} {q : ℚ}

/-- The value without its sign. -/
def size (x : Double) : ℚ := x.mantissa * 2 ^ x.scale

theorem size_eq (x : Double) : x.size = 4 * x.mantissa * x.quarter := by
  rw [size, quarter, zpow_sub₀ (by norm_num)]
  ring

theorem size_nonneg (x : Double) : 0 ≤ x.size := by
  unfold size
  positivity

theorem size_eq_zero_iff : x.size = 0 ↔ x.isZero = true := by
  constructor
  · intro hsize
    by_contra hz
    have hm := mantissa_pos (Bool.eq_false_of_not_eq_true hz)
    have hpos : 0 < x.size := by unfold size; positivity
    exact hpos.ne' hsize
  · intro hz
    obtain ⟨he, hf⟩ := isZero_iff.1 hz
    rw [size, mantissa, if_pos he, hf]
    simp

/-- A number covers its own value. -/
theorem covers_size (x : Double) : x.Covers x.size := by
  have hq := x.quarter_pos
  have hreach : (1 : ℚ) ≤ x.reach := by exact_mod_cast x.reach_pos.1
  rw [size_eq]
  refine .of_lt ?_ ?_
  · rw [low]
    nlinarith
  · rw [high]
    nlinarith

theorem value?_eq_some_iff :
    x.value? = some q ↔ x.isFinite = true ∧ q = if x.negative then -x.size else x.size := by
  unfold value? size
  split
  · next hx => simp only [hx, true_and, Option.some.injEq, eq_comm]
  · next hx => simp [hx]

/-- **Numbers with one value are one**, the zeros apart. -/
theorem eq_or_isZero_of_value? (hx : x.value? = some q) (hy : y.value? = some q) :
    x = y ∨ x.isZero = true ∧ y.isZero = true := by
  have hsize := (value?_eq_some_iff.1 hx).2.symm.trans (value?_eq_some_iff.1 hy).2
  by_cases hsign : x.negative = y.negative
  · have hsize : x.size = y.size := by
      rw [hsign] at hsize
      split at hsize
      · exact neg_injective hsize
      · exact hsize
    exact .inl (eq_of_covers hsign x.covers_size (hsize ▸ y.covers_size))
  · -- the value is neither above nor below zero
    have hopposite : x.size = -y.size := by
      rw [Bool.eq_not_of_ne hsign] at hsize
      cases hy : y.negative <;>
        simp only [hy, Bool.not_false, Bool.not_true, if_true, Bool.false_eq_true, if_false] at hsize
      · exact neg_eq_iff_eq_neg.1 hsize
      · exact hsize
    have hxs := x.size_nonneg
    have hys := y.size_nonneg
    exact .inr ⟨size_eq_zero_iff.1 (by linarith), size_eq_zero_iff.1 (by linarith)⟩

end Double

/-! ## Equality of numbers -/

namespace Json

variable {x y : Double} {v w : Json}

theorem number?_float_eq_finite_iff {q : ℚ} : (Json.float x).number? = some (.finite q) ↔ x.value? = some q := by
  simp only [number?]
  cases x.value? with
  | some r => simp
  | none => cases x.isNaN <;> simp

theorem number?_float_eq_infinite_iff {negative : Bool} : (Json.float x).number? = some (.infinite negative) ↔
    x.isFinite = false ∧ x.isNaN = false ∧ x.negative = negative := by
  simp only [number?, Double.value?]
  cases x.isFinite <;> cases x.isNaN <;> simp

theorem number?_of_isZero (hz : x.isZero = true) : (Json.float x).number? = some (.finite 0) := by
  refine number?_float_eq_finite_iff.2 (Double.value?_eq_some_iff.2 ⟨Double.isFinite_of_isZero hz, ?_⟩)
  rw [Double.size_eq_zero_iff.2 hz, neg_zero, ite_self]

theorem isNaN_eq_false_of_number? {n : Number} (h : (Json.float x).number? = some n) : x.isNaN = false := by
  cases n with
  | finite q =>
    obtain ⟨hfinite, -⟩ := Double.value?_eq_some_iff.1 (number?_float_eq_finite_iff.1 h)
    rw [Double.isFinite, bne_iff_ne] at hfinite
    rw [Double.isNaN, beq_false_of_ne hfinite, Bool.false_and]
  | infinite s => exact (number?_float_eq_infinite_iff.1 h).2.1

/-- **Numbers are the same exactly when they are equal**, unless they are none. -/
theorem sameValue_iff (hx : x.isNaN = false) : x.sameValue y = true ↔ (Json.float x).equal (.float y) = true := by
  have hnumeric : (Json.float x).IsNumeric := trivial
  rw [equal_iff_number hnumeric]
  constructor
  · intro h
    simp only [Double.sameValue, Bool.and_eq_true, Bool.or_eq_true, beq_iff_eq] at h
    obtain ⟨-, rfl | ⟨hzx, hzy⟩⟩ := h
    · exact (equal_iff_number hnumeric).1 (equal_self (.float hx))
    · exact ⟨.finite 0, number?_of_isZero hzx, number?_of_isZero hzy⟩
  · rintro ⟨n, hnx, hny⟩
    have hy := isNaN_eq_false_of_number? hny
    have hequal : x = y ∨ x.isZero = true ∧ y.isZero = true := by
      cases n with
      | finite q =>
        exact Double.eq_or_isZero_of_value? (number?_float_eq_finite_iff.1 hnx) (number?_float_eq_finite_iff.1 hny)
      | infinite s =>
        obtain ⟨hfx, -, hsx⟩ := number?_float_eq_infinite_iff.1 hnx
        obtain ⟨hfy, -, hsy⟩ := number?_float_eq_infinite_iff.1 hny
        exact .inl (Numeral.eq_of_not_isFinite (hsx.trans hsy.symm) hx hy hfx hfy)
    simpa [Double.sameValue, hx, hy] using hequal

/-! ## Scalars -/

/-- **The value is of the type of another one and equal to it.** -/
def Repeats (v u : Json) : Prop := v.typeName = u.typeName ∧ v.equal u = true

theorem isNaN_eq_false_of_equal (h : (Json.float x).equal w = true) : x.isNaN = false := by
  have hnumeric : (Json.float x).IsNumeric := trivial
  obtain ⟨n, hn, -⟩ := (equal_iff_number hnumeric).1 h
  exact isNaN_eq_false_of_number? hn

/-- **Scalars are the same exactly when they are of one type and equal**, unless they are no numbers. -/
theorem sameScalar_iff (hv : v.isScalar = true) (hnumber : ∀ x, v = .float x → x.isNaN = false) :
    v.sameScalar w = true ↔ v.Repeats w := by
  cases v with
  | null => cases w <;> simp [sameScalar, Repeats, typeName, equal]
  | bool a => cases w <;> cases a <;> simp [sameScalar, Repeats, typeName, equal, equalNumbers, number?]
  | int m => cases w <;> simp [sameScalar, Repeats, typeName, equal, equalNumbers, number?]
  | float x =>
    have hx := hnumber x rfl
    cases w with
    | float y =>
      rw [sameScalar, hx, Bool.false_and, Bool.or_false, sameValue_iff hx]
      exact (and_iff_right rfl).symm
    | _ => simp [sameScalar, Repeats, typeName]
  | str s => cases w <;> simp [sameScalar, Repeats, typeName, equal]
  | arr | obj => cases hv

theorem sameScalar_of_repeats (hv : v.isScalar = true) (h : v.Repeats w) : v.sameScalar w = true := by
  refine (sameScalar_iff hv ?_).2 h
  rintro x rfl
  exact isNaN_eq_false_of_equal h.2

end Json
end TrackingPlan
