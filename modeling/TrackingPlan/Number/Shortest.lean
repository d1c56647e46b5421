import TrackingPlan.Number.Double
/-!
# Shortest — the fewest decimal digits that read back

A finite number stands for the interval of reals that round to it.  On the grid of `n`-digit decimals the only points
worth trying are the two around the number itself, so `shortest` goes through the grids of 1, 2, … 17 digits and takes
the first that has a point in the interval: the nearer one if both are, an exact tie going to the even digit.
-/
namespace TrackingPlan

/-- The decimal `coefficient · 10 ^ exponent`. -/
structure Decimal where
  coefficient : Nat
  exponent : Int
deriving DecidableEq

namespace Double

/-- Three quotients over one denominator: the number, and the ends of the reals that round to it. -/
structure Interval where
  low : Nat
  here : Nat
  high : Nat
  den : Nat
  /-- The ends themselves round to the number. -/
  closed : Bool

/-- Below a power of two the neighbours are twice as close, except at the least scale. -/
def interval (x : Double) : Interval :=
  let up := Nat.pow 2 (x.scale - 2).toNat
  let narrow := x.fraction.val = 0 ∧ 1 < x.exponent.val
  { low := (4 * x.mantissa - if narrow then 1 else 2) * up
    here := 4 * x.mantissa * up
    high := (4 * x.mantissa + 2) * up
    den := Nat.pow 2 (2 - x.scale).toNat
    closed := x.mantissa % 2 == 0 }

namespace Interval

def holds (i : Interval) (num den : Nat) : Bool :=
  let a := num * i.den
  if i.closed then i.low * den ≤ a && a ≤ i.high * den else i.low * den < a && a < i.high * den

/-- The place `k` of the leading digit: `10 ^ (k - 1) ≤ here / den < 10 ^ k`. -/
def leading (i : Interval) : Int :=
  if i.den ≤ i.here then (Nat.toDigits 10 (i.here / i.den)).length
  else
    let c := (Nat.toDigits 10 (i.den / i.here)).length
    if i.den = i.here * Nat.pow 10 (c - 1) then 2 - (c : Int) else 1 - (c : Int)

/-- The point of the grid of step `10 ^ exponent` that reads back, if one does. -/
def onGrid (i : Interval) (exponent : Int) : Option Decimal :=
  let num := i.here * Nat.pow 10 (-exponent).toNat
  let den := i.den * Nat.pow 10 exponent.toNat
  let below := num / den
  let r := num % den
  let reads := fun c => i.holds (c * Nat.pow 10 exponent.toNat) (Nat.pow 10 (-exponent).toNat)
  let nearer := if den < 2 * r ∨ (2 * r = den ∧ below % 2 = 1) then below + 1 else below
  let farther := if nearer = below then below + 1 else below
  if reads nearer then some ⟨nearer, exponent⟩
  else if reads farther then some ⟨farther, exponent⟩
  else none

end Interval

/-- **The shortest decimal that reads back**, the nearest of those; meant for finite numbers other than zero. -/
def shortest (x : Double) : Decimal :=
  let i := x.interval
  let k := i.leading
  ((List.range' 1 17).findSome? (fun n : Nat => i.onGrid (k - n))).getD ⟨0, 0⟩

end Double
end TrackingPlan
