import TrackingPlan.Json.Value
/-!
# Equality — when two values are equal

Numbers are equal by their exact value, whether written as `int` or `float`, and a truth value equals the number one or
zero; objects are equal when they hold equal values under the same keys, in any order.
-/
namespace TrackingPlan
namespace Json

/-- The numeric value of a number or truth value. -/
inductive Number where
  | finite (q : Rat)
  | infinite (negative : Bool)
deriving DecidableEq

def number? : Json → Option Number
  | .bool b => some (.finite (if b then 1 else 0))
  | .int n => some (.finite n)
  | .float x => match x.value? with
    | some q => some (.finite q)
    | none => if x.isNaN then none else some (.infinite x.negative)
  | _ => none

def equalNumbers (a b : Json) : Bool :=
  match a.number?, b.number? with
  | some x, some y => x == y
  | _, _ => false

mutual
/-- **Equality of values.** -/
def equal : Json → Json → Bool
  | .null, .null => true
  | .str a, .str b => a == b
  | .arr xs, .arr ys => equalItems xs ys
  | .obj ms, .obj ns => ms.length == ns.length && equalMembers ms ns
  | a, b => equalNumbers a b
def equalItems : List Json → List Json → Bool
  | [], [] => true
  | x :: xs, y :: ys => equal x y && equalItems xs ys
  | _, _ => false
/-- Every member of the first object has an equal one in the second. -/
def equalMembers : List (String × Json) → List (String × Json) → Bool
  | [], _ => true
  | (k, v) :: ms, ns => (match ns.lookup k with | some w => equal v w | none => false) && equalMembers ms ns
end

end Json
end TrackingPlan
