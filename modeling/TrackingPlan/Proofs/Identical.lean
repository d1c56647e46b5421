import TrackingPlan.Build
/-!
# Identical — whether two values, nodes or builds are one

`Json.identical` and `Node.identical` go through two trees side by side.  Unlike the equality of values they tell `1`
from `1.0` and from `true`, and each object from those with its entries in another order, so they decide whether two
trees are one (`Json.identical_iff`, `Node.identical_iff`).  By that it is decided what a run on a given document comes
to.
-/
namespace TrackingPlan
namespace Json

mutual
/-- **Two values that are one**, down to the bits of their numbers and the order of their entries. -/
def identical : Json → Json → Bool
  | .null, .null => true
  | .bool a, .bool b => a == b
  | .int m, .int n => m == n
  | .float x, .float y => x == y
  | .str s, .str t => s == t
  | .arr vs, .arr ws => identicalItems vs ws
  | .obj ms, .obj ns => identicalMembers ms ns
  | _, _ => false
def identicalItems : List Json → List Json → Bool
  | [], [] => true
  | v :: vs, w :: ws => identical v w && identicalItems vs ws
  | _, _ => false
def identicalMembers : List (String × Json) → List (String × Json) → Bool
  | [], [] => true
  | (k, v) :: ms, (l, w) :: ns => k == l && identical v w && identicalMembers ms ns
  | _, _ => false
end

mutual
theorem identical_iff : ∀ {v w : Json}, identical v w = true ↔ v = w
  | .arr vs, w => by cases w <;> simp [identical, identicalItems_iff]
  | .obj ms, w => by cases w <;> simp [identical, identicalMembers_iff]
  | .null, w | .bool _, w | .int _, w | .float _, w | .str _, w => by cases w <;> simp [identical]
theorem identicalItems_iff : ∀ {vs ws : List Json}, identicalItems vs ws = true ↔ vs = ws
  | [], ws => by cases ws <;> simp [identicalItems]
  | v :: vs, ws => by cases ws <;> simp [identicalItems, identical_iff, identicalItems_iff]
theorem identicalMembers_iff : ∀ {ms ns : List (String × Json)}, identicalMembers ms ns = true ↔ ms = ns
  | [], ns => by cases ns <;> simp [identicalMembers]
  | (k, v) :: ms, ns => by cases ns <;> simp [identicalMembers, identical_iff, identicalMembers_iff, Prod.ext_iff]
end

instance : DecidableEq Json := fun _ _ => decidable_of_iff _ identical_iff

end Json

deriving instance DecidableEq for Info

namespace Node

mutual
/-- **Two nodes that are one.** -/
def identical : Node → Node → Bool
  | .bare i, .bare j => i == j
  | .primitive i k e, .primitive j l f => i == j && k == l && e == f
  | .array i n, .array j m => i == j && identical n m
  | .object i ps ds, .object j qs es => i == j && identicalNodes ps qs && identicalDefs ds es
  | .union i ns e, .union j ms f => i == j && identicalNodes ns ms && e == f
  | _, _ => false
def identicalNodes : List Node → List Node → Bool
  | [], [] => true
  | n :: ns, m :: ms => identical n m && identicalNodes ns ms
  | _, _ => false
def identicalDefs : List (String × Node) → List (String × Node) → Bool
  | [], [] => true
  | (k, n) :: ds, (l, m) :: es => k == l && identical n m && identicalDefs ds es
  | _, _ => false
end

mutual
theorem identical_iff : ∀ {n m : Node}, identical n m = true ↔ n = m
  | .array i n, m => by cases m <;> simp [identical, identical_iff]
  | .object i ps ds, m => by cases m <;> simp [identical, identicalNodes_iff, identicalDefs_iff, and_assoc]
  | .union i ns e, m => by cases m <;> simp [identical, identicalNodes_iff, and_assoc]
  | .bare _, m | .primitive _ _ _, m => by cases m <;> simp [identical, and_assoc]
theorem identicalNodes_iff : ∀ {ns ms : List Node}, identicalNodes ns ms = true ↔ ns = ms
  | [], ms => by cases ms <;> simp [identicalNodes]
  | n :: ns, ms => by cases ms <;> simp [identicalNodes, identical_iff, identicalNodes_iff]
theorem identicalDefs_iff : ∀ {ds es : List (String × Node)}, identicalDefs ds es = true ↔ ds = es
  | [], es => by cases es <;> simp [identicalDefs]
  | (k, n) :: ds, es => by cases es <;> simp [identicalDefs, identical_iff, identicalDefs_iff, Prod.ext_iff]
end

instance : DecidableEq Node := fun _ _ => decidable_of_iff _ identical_iff

end Node

deriving instance DecidableEq for Cause, SchemaError, Fault, LanguageSetting, Options, Build

end TrackingPlan
