/-!
# Double — 64-bit binary floating point, field by field

A number is kept as its three fields, so two numbers are the same exactly when their fields are, and every operation
here is exact arithmetic on `Nat` and `Rat`.  `value?` is the meaning of a finite number; `ofRatio` is the nearest
number to a quotient, a tie going to the even fraction.
-/
namespace TrackingPlan

/-- A binary floating-point number: sign, biased exponent and fraction. -/
structure Double where
  negative : Bool
  exponent : Fin 2048
  fraction : Fin 4503599627370496
deriving DecidableEq

namespace Double

def fractionCount : Nat := 4503599627370496

def zero (negative : Bool) : Double := ⟨negative, 0, 0⟩
def infinity (negative : Bool) : Double := ⟨negative, 2047, 0⟩
def nan : Double := ⟨false, 2047, 2251799813685248⟩

def isFinite (x : Double) : Bool := x.exponent != 2047
def isNaN (x : Double) : Bool := x.exponent == 2047 && x.fraction != 0
def isZero (x : Double) : Bool := x.exponent == 0 && x.fraction == 0

/-! ## The exact value

The magnitude of a finite number is `mantissa · 2 ^ scale`; the leading one of a normal number is not stored. -/

def mantissa (x : Double) : Nat :=
  if x.exponent = 0 then x.fraction.val else fractionCount + x.fraction.val

def scale (x : Double) : Int := (max 1 x.exponent.val : Int) - 1075

def value? (x : Double) : Option Rat :=
  if x.isFinite then
    let magnitude : Rat := (x.mantissa : Rat) * (2 : Rat) ^ x.scale
    some (if x.negative then -magnitude else magnitude)
  else none

/-- Numeric equality: the zeros are equal, and nothing equals a number that is not one. -/
def sameValue (x y : Double) : Bool :=
  !x.isNaN && !y.isNaN && (x == y || (x.isZero && y.isZero))

/-! ## Rounding -/

/-- The quotient rounded to the nearest natural number, a tie to the even one. -/
def roundQuotient (num den : Nat) : Nat :=
  let q := num / den
  let r := num % den
  if den < 2 * r ∨ (2 * r = den ∧ q % 2 = 1) then q + 1 else q

/-- The scale at which the quotient `num / den` has 53 binary digits, never under the least one. -/
def roundingScale (num den : Nat) : Int :=
  let guess : Int := (num.log2 : Int) - (den.log2 : Int) - 52
  let scaled := num * Nat.pow 2 (-guess).toNat < fractionCount * (den * Nat.pow 2 guess.toNat)
  max (-1074) (if scaled then guess - 1 else guess)

/-- The number whose exponent and fraction, read as one numeral, are `word`; too large a numeral is infinite. -/
def ofWord (negative : Bool) (word : Nat) : Double :=
  if word < 2047 * fractionCount then
    ⟨negative, Fin.ofNat 2048 (word / fractionCount), Fin.ofNat 4503599627370496 (word % fractionCount)⟩
  else infinity negative

/-- **The number nearest to `num / den`**, ties to the even fraction, past the largest number an infinity. -/
def ofRatio (negative : Bool) (num den : Nat) : Double :=
  if num = 0 then zero negative else
  let scale := roundingScale num den
  let q := roundQuotient (num * Nat.pow 2 (-scale).toNat) (den * Nat.pow 2 scale.toNat)
  if q < fractionCount then ofWord negative q
  else ofWord negative ((scale + 1075).toNat * fractionCount + (q - fractionCount))

/-- The number nearest to `coefficient · 10 ^ exponent`.  A numeral far outside the range is settled by the place of
its leading digit, before any power is taken. -/
def ofDecimal (negative : Bool) (coefficient : Nat) (exponent : Int) : Double :=
  if coefficient = 0 then zero negative else
  let leading : Int := (Nat.toDigits 10 coefficient).length + exponent
  if 310 < leading then infinity negative
  else if leading < -330 then zero negative
  else ofRatio negative (coefficient * Nat.pow 10 exponent.toNat) (Nat.pow 10 (-exponent).toNat)

end Double
end TrackingPlan
