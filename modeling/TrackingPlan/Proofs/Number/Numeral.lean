import TrackingPlan.Proofs.Number.Shortest
/-!
# Numeral — a numeral gives its number back

A numeral is read by its digits, the place of its point and its exponent.  However the digits are placed, they stand for
the same value (`read_place`), so the numeral of a finite number other than zero stands for its shortest decimal, which
no other number of that sign covers.  Zeros and infinities have numerals of their own; hence what is written alike is
the same number (`double_injective`), unless it is none.
-/
namespace TrackingPlan
namespace Numeral

variable {ds cs : List Char} {style : Style} {x y : Double} {c : Char}

/-! ## Reading -/

/-- What digits around a point stand for. -/
def readPoint (cs : List Char) : ℚ :=
  let fraction := (cs.dropWhile (· != '.')).drop 1
  Nat.ofDigitChars 10 (cs.takeWhile (· != '.') ++ fraction) 0 * 10 ^ (-(fraction.length : ℤ))

/-- The exponent at the end of a numeral. -/
def readExponent : List Char → ℤ
  | _ :: '-' :: ds => -Nat.ofDigitChars 10 ds 0
  | _ :: _ :: ds => Nat.ofDigitChars 10 ds 0
  | _ => 0

/-- What a numeral stands for, a sign apart. -/
def read (cs : List Char) : ℚ := readPoint (cs.takeWhile (· != 'e')) * 10 ^ readExponent (cs.dropWhile (· != 'e'))

theorem readPoint_point (hcs : ∀ c ∈ cs, (c != '.') = true) (fraction : List Char) :
    readPoint (cs ++ '.' :: fraction) = Nat.ofDigitChars 10 (cs ++ fraction) 0 * 10 ^ (-(fraction.length : ℤ)) := by
  have htake : ('.' :: fraction).takeWhile (· != '.') = [] := rfl
  have hdrop : ('.' :: fraction).dropWhile (· != '.') = '.' :: fraction := rfl
  simp only [readPoint, List.takeWhile_append_of_pos hcs, List.dropWhile_append_of_pos hcs, htake, hdrop,
    List.append_nil, List.drop_succ_cons, List.drop_zero]

theorem readPoint_whole (hcs : ∀ c ∈ cs, (c != '.') = true) : readPoint cs = Nat.ofDigitChars 10 cs 0 := by
  have htake : cs.takeWhile (· != '.') = cs := List.takeWhile_eq_self_iff.2 hcs
  have hdrop : cs.dropWhile (· != '.') = [] := List.dropWhile_eq_nil_iff.2 hcs
  simp [readPoint, htake, hdrop]

theorem readExponent_exponentDigits (e : ℤ) : readExponent ('e' :: exponentDigits e) = e := by
  have hdigits : ∀ ds : List Char,
      Nat.ofDigitChars 10 (if ds.length < 2 then '0' :: ds else ds) 0 = Nat.ofDigitChars 10 ds 0 := by
    intro ds
    split
    · exact Nat.ofDigitChars_cons
    · rfl
  unfold exponentDigits
  simp only
  split
  · rw [readExponent, hdigits, ofDigitChars_natDigits]
    omega
  · rw [readExponent, hdigits, ofDigitChars_natDigits]
    · omega
    · rintro ⟨⟩

theorem read_exponent (hcs : ∀ c ∈ cs, (c != 'e') = true) (e : ℤ) :
    read (cs ++ 'e' :: exponentDigits e) = readPoint cs * 10 ^ e := by
  have htake : ('e' :: exponentDigits e).takeWhile (· != 'e') = [] := rfl
  have hdrop : ('e' :: exponentDigits e).dropWhile (· != 'e') = 'e' :: exponentDigits e := rfl
  rw [read, List.takeWhile_append_of_pos hcs, List.dropWhile_append_of_pos hcs, htake, hdrop, List.append_nil,
    readExponent_exponentDigits]

theorem read_plain (hcs : ∀ c ∈ cs, (c != 'e') = true) : read cs = readPoint cs := by
  rw [read, List.takeWhile_eq_self_iff.2 hcs, List.dropWhile_eq_nil_iff.2 hcs, show readExponent [] = 0 from rfl,
    zpow_zero, mul_one]

/-! ## Placing digits -/

theorem pointed_ne_mark (hcs : AllDigits cs) (hds : AllDigits ds) : ∀ c ∈ cs ++ '.' :: ds, (c != 'e') = true := by
  intro c hc
  rcases List.mem_append.1 hc with hc | hc
  · exact hcs.ne_mark rfl c hc
  · rcases List.mem_cons.1 hc with rfl | hc
    · rfl
    · exact hds.ne_mark rfl c hc

theorem read_pointed (hcs : AllDigits cs) (hds : AllDigits ds) :
    read (cs ++ '.' :: ds) = Nat.ofDigitChars 10 (cs ++ ds) 0 * 10 ^ (-(ds.length : ℤ)) := by
  rw [read_plain (pointed_ne_mark hcs hds), readPoint_point (hcs.ne_mark rfl)]

/-- One digit, the others behind the point, and an exponent. -/
theorem read_scientific {d : Char} (hds : AllDigits (d :: ds)) (e : ℤ) :
    read ((d :: ds).take 1 ++ (if ds.isEmpty then [] else '.' :: ds) ++ 'e' :: exponentDigits e) =
      Nat.ofDigitChars 10 (d :: ds) 0 * 10 ^ (-(ds.length : ℤ) + e) := by
  have hten : (10 : ℚ) ≠ 0 := by norm_num
  have hhead : AllDigits [d] := hds.take 1
  have htail : AllDigits ds := hds.drop 1
  rw [List.take_succ_cons, List.take_zero]
  cases ds with
  | nil =>
    rw [List.isEmpty_nil, if_pos rfl, List.append_nil, read_exponent (hhead.ne_mark rfl),
      readPoint_whole (hhead.ne_mark rfl)]
    simp
  | cons f fs =>
    rw [List.isEmpty_cons, if_neg Bool.false_ne_true, read_exponent (pointed_ne_mark hhead htail),
      readPoint_point (hhead.ne_mark rfl), mul_assoc, ← zpow_add₀ hten]
    rfl

/-- Zeros between the point and the digits. -/
theorem read_small (hds : AllDigits ds) (n : ℕ) :
    read ('0' :: '.' :: (List.replicate n '0' ++ ds)) = Nat.ofDigitChars 10 ds 0 * 10 ^ (-(n : ℤ) - ds.length) := by
  have hread := read_pointed (AllDigits.zeros 1) ((AllDigits.zeros n).append hds)
  have hvalue : Nat.ofDigitChars 10 (List.replicate 1 '0' ++ (List.replicate n '0' ++ ds)) 0 =
      Nat.ofDigitChars 10 ds 0 := by
    rw [Nat.ofDigitChars_append, Nat.ofDigitChars_append, Nat.ofDigitChars_replicate_zero,
      Nat.ofDigitChars_replicate_zero, Nat.mul_zero]
  rw [hvalue, List.length_append, List.length_replicate] at hread
  rw [show -(n : ℤ) - ds.length = -((n + ds.length : ℕ) : ℤ) by omega]
  exact hread

/-- Zeros between the digits and the point, and one behind it. -/
theorem read_large (hds : AllDigits ds) (n : ℕ) :
    read (ds ++ List.replicate n '0' ++ ['.', '0']) = Nat.ofDigitChars 10 ds 0 * 10 ^ (n : ℤ) := by
  have hvalue : Nat.ofDigitChars 10 (ds ++ List.replicate n '0' ++ List.replicate 1 '0') 0 =
      10 ^ n * Nat.ofDigitChars 10 ds 0 * 10 := by
    rw [Nat.ofDigitChars_append, Nat.ofDigitChars_append, Nat.ofDigitChars_replicate_zero,
      Nat.ofDigitChars_replicate_zero, Nat.pow_one, Nat.mul_comm 10]
  rw [zpow_natCast]
  refine (read_pointed (hds.append (.zeros n)) (.zeros 1)).trans ?_
  rw [hvalue, List.length_replicate]
  push_cast
  rw [zpow_neg_one, mul_assoc, mul_inv_cancel₀ (by norm_num), mul_one, mul_comm]

/-- **Wherever the digits are placed, they stand for one value.** -/
theorem read_place (hds : AllDigits ds) (hne : ds ≠ []) (point : ℤ) :
    read (place ds point) = Nat.ofDigitChars 10 ds 0 * 10 ^ (point - ds.length) := by
  unfold place
  split
  · obtain ⟨d, ds, rfl⟩ := List.exists_cons_of_ne_nil hne
    refine (read_scientific hds (point - 1)).trans ?_
    rw [List.length_cons]
    congr 2
    push_cast
    ring
  · split
    · next hle =>
      rw [read_small hds]
      congr 2
      omega
    · split
      · next hinside =>
        rw [read_pointed (hds.take _) (hds.drop _), List.take_append_drop, List.length_drop]
        congr 2
        omega
      · rw [read_large hds]
        congr 2
        omega

/-- The digits of a numeral and the marks between them. -/
def IsNumeral (c : Char) : Prop := c.isDigit = true ∨ c = '.' ∨ c = 'e' ∨ c = '+' ∨ c = '-'

theorem AllDigits.isNumeral (hds : AllDigits ds) (h : c ∈ ds) : IsNumeral c := .inl (hds c h)

theorem isNumeral_of_mem_exponentDigits {e : ℤ} (h : c ∈ exponentDigits e) : IsNumeral c := by
  have hds : AllDigits (natDigits e.natAbs) := .natDigits _
  rcases List.mem_cons.1 h with h | h
  · split at h
    · exact .inr (.inr (.inr (.inr h)))
    · exact .inr (.inr (.inr (.inl h)))
  · split at h
    · exact (hds.cons rfl).isNumeral h
    · exact hds.isNumeral h

theorem isNumeral_of_mem_place (hds : AllDigits ds) {point : ℤ} (h : c ∈ place ds point) : IsNumeral c := by
  have hpoint : ∀ {cs : List Char}, AllDigits cs → c ∈ '.' :: cs → IsNumeral c := fun hcs h =>
    (List.mem_cons.1 h).elim (fun h => .inr (.inl h)) hcs.isNumeral
  unfold place at h
  split at h
  · rcases List.mem_append.1 h with h | h
    · rcases List.mem_append.1 h with h | h
      · exact (hds.take 1).isNumeral h
      · split at h
        · cases h
        · exact hpoint (hds.drop 1) h
    · rcases List.mem_cons.1 h with h | h
      · exact .inr (.inr (.inl h))
      · exact isNumeral_of_mem_exponentDigits h
  · split at h
    · rcases List.mem_cons.1 h with h | h
      · exact .inl (by rw [h]; rfl)
      · exact hpoint ((AllDigits.zeros _).append hds) h
    · split at h
      · rcases List.mem_append.1 h with h | h
        · exact (hds.take _).isNumeral h
        · exact hpoint (hds.drop _) h
      · rcases List.mem_append.1 h with h | h
        · exact (hds.append (.zeros _)).isNumeral h
        · exact hpoint (.zeros 1) h

/-- A numeral starts with a digit, a sign apart. -/
theorem place_head (hds : AllDigits ds) (hne : ds ≠ []) (point : ℤ) :
    ∃ c cs, place ds point = c :: cs ∧ c.isDigit = true := by
  obtain ⟨d, ds, rfl⟩ := List.exists_cons_of_ne_nil hne
  have hd := hds d List.mem_cons_self
  unfold place
  split
  · exact ⟨d, _, rfl, hd⟩
  · split
    · exact ⟨'0', _, rfl, rfl⟩
    · split
      · obtain ⟨n, hn⟩ : ∃ n, point.toNat = n + 1 := ⟨point.toNat - 1, by omega⟩
        rw [hn]
        exact ⟨d, _, rfl, hd⟩
      · exact ⟨d, _, rfl, hd⟩

/-! ## Numbers -/

/-- The digits of the shortest decimal, zeros at the end left out. -/
def significand (x : Double) : List Char := dropTrailingZeros (natDigits x.shortest.coefficient)

theorem significand_ne_nil (hx : 0 < x.mantissa) : significand x ≠ [] := fun h => by
  have hvalue := ofDigitChars_dropTrailingZeros (natDigits x.shortest.coefficient)
  rw [show dropTrailingZeros (natDigits x.shortest.coefficient) = [] from h, ofDigitChars_natDigits,
    Nat.ofDigitChars_nil, Nat.zero_mul] at hvalue
  exact Double.shortest_coefficient_ne hx hvalue

theorem allDigits_significand (x : Double) : AllDigits (significand x) := (AllDigits.natDigits _).dropTrailingZeros

theorem magnitude_eq_place (hz : x.isZero = false) (hfinite : x.isFinite = true) : magnitude style x =
    place (significand x) ((natDigits x.shortest.coefficient).length + x.shortest.exponent) := by
  rw [magnitude, hz, hfinite]
  rfl

theorem coefficient_eq (x : Double) : x.shortest.coefficient = Nat.ofDigitChars 10 (significand x) 0 *
    10 ^ ((natDigits x.shortest.coefficient).length - (significand x).length) := by
  have hvalue := ofDigitChars_dropTrailingZeros (natDigits x.shortest.coefficient)
  rwa [ofDigitChars_natDigits] at hvalue

/-- **The numeral of a finite number stands for its shortest decimal.** -/
theorem read_magnitude (hz : x.isZero = false) (hfinite : x.isFinite = true) :
    read (magnitude style x) = x.shortest.value := by
  have hvalue : (x.shortest.coefficient : ℚ) = Nat.ofDigitChars 10 (significand x) 0 *
      10 ^ ((natDigits x.shortest.coefficient).length - (significand x).length) := by exact_mod_cast coefficient_eq x
  have hlen : (significand x).length ≤ (natDigits x.shortest.coefficient).length := length_dropTrailingZeros_le _
  have hexponent : ((natDigits x.shortest.coefficient).length + x.shortest.exponent - (significand x).length : ℤ) =
      ((natDigits x.shortest.coefficient).length - (significand x).length : ℕ) + x.shortest.exponent := by omega
  rw [magnitude_eq_place hz hfinite, read_place (allDigits_significand x) (significand_ne_nil (Double.mantissa_pos hz)),
    hexponent, zpow_add₀ (by norm_num), zpow_natCast, Decimal.value, ← mul_assoc, ← hvalue]

/-! ## Telling numbers apart -/

/-- Infinities are not written like numbers. -/
def Style.IsApart (style : Style) : Prop := ∃ c cs, style.infinity.toList = c :: cs ∧ c.isDigit = false ∧ c ≠ '-'

theorem Style.literal_isApart : Style.literal.IsApart := ⟨'i', ['n', 'f'], rfl, rfl, by decide⟩

theorem Style.json_isApart : Style.json.IsApart := ⟨'I', ['n', 'f', 'i', 'n', 'i', 't', 'y'], rfl, rfl, by decide⟩

/-- The first character of a numeral tells whether the number is finite, and is no sign. -/
theorem magnitude_head (hstyle : style.IsApart) (x : Double) :
    ∃ c cs, magnitude style x = c :: cs ∧ c.isDigit = x.isFinite ∧ c ≠ '-' := by
  have hdigit : ∀ {c : Char}, c.isDigit = true → c ≠ '-' := fun hc h => by rw [h] at hc; cases hc
  by_cases hz : x.isZero = true
  · exact ⟨'0', ['.', '0'], if_pos hz, (Double.isFinite_of_isZero hz).symm, by decide⟩
  · rw [Bool.not_eq_true] at hz
    by_cases hfinite : x.isFinite = true
    · obtain ⟨c, cs, hplace, hc⟩ := place_head (allDigits_significand x) (significand_ne_nil (Double.mantissa_pos hz))
        ((natDigits x.shortest.coefficient).length + x.shortest.exponent)
      exact ⟨c, cs, (magnitude_eq_place hz hfinite).trans hplace, hc.trans hfinite.symm, hdigit hc⟩
    · rw [Bool.not_eq_true] at hfinite
      obtain ⟨c, cs, hword, hc, hminus⟩ := hstyle
      exact ⟨c, cs, by rw [magnitude, hz, hfinite]; exact hword, hc.trans hfinite.symm, hminus⟩

theorem eq_of_isZero (hsign : x.negative = y.negative) (hx : x.isZero = true) (hy : y.isZero = true) : x = y := by
  obtain ⟨hxe, hxf⟩ := Double.isZero_iff.1 hx
  obtain ⟨hye, hyf⟩ := Double.isZero_iff.1 hy
  exact Double.mk.injEq .. ▸ ⟨hsign, hxe.trans hye.symm, hxf.trans hyf.symm⟩

/-- An infinity is told by its sign. -/
theorem eq_of_not_isFinite (hsign : x.negative = y.negative) (hx : x.isNaN = false) (hy : y.isNaN = false)
    (hfx : x.isFinite = false) (hfy : y.isFinite = false) : x = y := by
  have hfraction : ∀ {z : Double}, z.isNaN = false → z.isFinite = false → z.exponent = 2047 ∧ z.fraction = 0 := by
    intro z hz hfz
    have he : z.exponent = 2047 := by simpa [Double.isFinite] using hfz
    exact ⟨he, by simpa [Double.isNaN, he] using hz⟩
  obtain ⟨hxe, hxf⟩ := hfraction hx hfx
  obtain ⟨hye, hyf⟩ := hfraction hy hfy
  exact Double.mk.injEq .. ▸ ⟨hsign, hxe.trans hye.symm, hxf.trans hyf.symm⟩

theorem read_zero (hz : x.isZero = true) : read (magnitude style x) = 0 := by
  have hread : read ['0', '.', '0'] = (0 : ℕ) * 10 ^ (-1 : ℤ) := read_pointed (.zeros 1) (.zeros 1)
  rw [magnitude, if_pos hz, hread, Nat.cast_zero, zero_mul]

theorem magnitude_injective (hstyle : style.IsApart) (hx : x.isNaN = false) (hy : y.isNaN = false)
    (hsign : x.negative = y.negative) (h : magnitude style x = magnitude style y) : x = y := by
  have hfinite : x.isFinite = y.isFinite := by
    obtain ⟨c, cs, hc, hcx, -⟩ := magnitude_head hstyle x
    obtain ⟨d, ds, hd, hdy, -⟩ := magnitude_head hstyle y
    rw [hc, hd] at h
    rw [← hcx, ← hdy, (List.cons.inj h).1]
  by_cases hfx : x.isFinite = true
  · have hfy : y.isFinite = true := hfinite.symm.trans hfx
    have hread : read (magnitude style x) = read (magnitude style y) := congrArg read h
    cases hzx : x.isZero <;> cases hzy : y.isZero
    · -- both are covered by what the numeral stands for
      rw [read_magnitude hzx hfx, read_magnitude hzy hfy] at hread
      exact Double.eq_of_covers hsign (Double.covers_shortest (Double.mantissa_pos hzx))
        (hread ▸ Double.covers_shortest (Double.mantissa_pos hzy))
    · rw [read_magnitude hzx hfx, read_zero hzy] at hread
      exact absurd hread (Double.shortest_value_pos (Double.mantissa_pos hzx)).ne'
    · rw [read_zero hzx, read_magnitude hzy hfy] at hread
      exact absurd hread (Double.shortest_value_pos (Double.mantissa_pos hzy)).ne
    · exact eq_of_isZero hsign hzx hzy
  · rw [Bool.not_eq_true] at hfx
    exact eq_of_not_isFinite hsign hx hy hfx (hfinite.symm.trans hfx)

/-- **What is written alike is the same number**, unless it is none. -/
theorem double_injective (hstyle : style.IsApart) (hx : x.isNaN = false) (hy : y.isNaN = false)
    (h : double style x = double style y) : x = y := by
  have hminus : ∀ z w : Double, '-' :: magnitude style z ≠ magnitude style w := fun z w hzw => by
    obtain ⟨c, cs, hc, -, hne⟩ := magnitude_head hstyle w
    rw [hc] at hzw
    exact hne (List.cons.inj hzw).1.symm
  simp only [double, hx, hy, Bool.false_eq_true, if_false] at h
  cases hsx : x.negative <;> cases hsy : y.negative <;> simp only [hsx, hsy, Bool.false_eq_true, if_false, if_true] at h
  · exact magnitude_injective hstyle hx hy (hsx.trans hsy.symm) h
  · exact absurd h.symm (hminus y x)
  · exact absurd h (hminus x y)
  · exact magnitude_injective hstyle hx hy (hsx.trans hsy.symm) (List.cons.inj h).2

/-- What is in the text of a number that is one: its numeral, or a word for infinity. -/
theorem mem_double (hx : x.isNaN = false) (h : c ∈ double style x) : IsNumeral c ∨ c ∈ style.infinity.toList := by
  have hmagnitude : c ∈ magnitude style x → IsNumeral c ∨ c ∈ style.infinity.toList := by
    intro h
    by_cases hz : x.isZero = true
    · rw [magnitude, if_pos hz] at h
      exact .inl ((List.mem_cons.1 h).elim (fun h => .inl (by rw [h]; rfl))
        fun h => (List.mem_cons.1 h).elim (fun h => .inr (.inl h)) fun h => .inl (by rw [List.mem_singleton.1 h]; rfl))
    · rw [Bool.not_eq_true] at hz
      by_cases hfinite : x.isFinite = true
      · rw [magnitude_eq_place hz hfinite] at h
        exact .inl (isNumeral_of_mem_place (allDigits_significand x) h)
      · rw [magnitude, if_neg (by rw [hz]; exact Bool.false_ne_true), if_neg hfinite] at h
        exact .inr h
  rw [double, if_neg (by rw [hx]; exact Bool.false_ne_true)] at h
  split at h
  · exact (List.mem_cons.1 h).elim (fun h => .inl (.inr (.inr (.inr (.inr h))))) hmagnitude
  · exact hmagnitude h

end Numeral
end TrackingPlan
