import TrackingPlan.Number.Shortest
/-!
# Numeral — how a number is written out

A whole number is its decimal digits.  For a `Double` the digits come from `shortest`: they are written positionally
when the leading one stands between `10 ^ -4` and `10 ^ 15`, always with a digit after the point, and otherwise with an
exponent of at least two digits and its sign.  A `Style` has the words for what has no digits.

A number of any length is written out; a limit on digits (`Json.maxDigits`) there is in reading only.
-/
namespace TrackingPlan
namespace Numeral

def natDigits (n : Nat) : List Char := Nat.toDigits 10 n

def intDigits : Int → List Char
  | .ofNat n => natDigits n
  | .negSucc n => '-' :: natDigits (n + 1)

def nat (n : Nat) : String := String.ofList (natDigits n)
def int (n : Int) : String := String.ofList (intDigits n)

/-! ## Numbers with a point -/

structure Style where
  nan : String
  infinity : String

namespace Style

/-- The spelling inside literals. -/
def literal : Style := ⟨"nan", "inf"⟩

/-- The spelling inside JSON texts. -/
def json : Style := ⟨"NaN", "Infinity"⟩

end Style

def dropTrailingZeros (ds : List Char) : List Char := (ds.reverse.dropWhile (· == '0')).reverse

def exponentDigits (e : Int) : List Char :=
  let ds := natDigits e.natAbs
  (if e < 0 then '-' else '+') :: (if ds.length < 2 then '0' :: ds else ds)

/-- The significant digits `ds` with the point before place `point`: `0.ds · 10 ^ point`. -/
def place (ds : List Char) (point : Int) : List Char :=
  if point < -3 ∨ 16 < point then
    let fractional := ds.drop 1
    ds.take 1 ++ (if fractional.isEmpty then [] else '.' :: fractional) ++ 'e' :: exponentDigits (point - 1)
  else if point ≤ 0 then '0' :: '.' :: (List.replicate (-point).toNat '0' ++ ds)
  else if point.toNat < ds.length then ds.take point.toNat ++ '.' :: ds.drop point.toNat
  else ds ++ List.replicate (point.toNat - ds.length) '0' ++ ['.', '0']

def magnitude (style : Style) (x : Double) : List Char :=
  if x.isZero then ['0', '.', '0']
  else if x.isFinite then
    let d := x.shortest
    let ds := natDigits d.coefficient
    place (dropTrailingZeros ds) (ds.length + d.exponent)
  else style.infinity.toList

def double (style : Style) (x : Double) : List Char :=
  if x.isNaN then style.nan.toList
  else if x.negative then '-' :: magnitude style x else magnitude style x

end Numeral
end TrackingPlan
