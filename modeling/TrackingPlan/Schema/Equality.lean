import TrackingPlan.Json.Equality
import TrackingPlan.Schema.Node
/-!
# Equality — when two nodes are equal, and when they have one shape

Nodes are equal when they are of one constructor and all their parts are: values as in `Json.equal`, lists in order,
tables in any order.  `sameShape` sets aside where the two nodes stand, that is, their own name and required flag.
-/
namespace TrackingPlan

def equalOption {α : Type} (eq : α → α → Bool) : Option α → Option α → Bool
  | none, none => true
  | some a, some b => eq a b
  | _, _ => false

namespace Info

def equal (a b : Info) : Bool :=
  a.name.equal b.name
    && equalOption Json.equal a.identifierName b.identifierName
    && equalOption Json.equal a.description b.description
    && a.isRequired == b.isRequired
    && a.isNullable == b.isNullable
    && a.refName == b.refName
    && (Json.obj a.keywords).equal (.obj b.keywords)

/-- The same information for a node standing nowhere in particular. -/
def unplaced (i : Info) : Info := { i with name := .str "", isRequired := false }

end Info

namespace Node

mutual
/-- **Equality of nodes.** -/
def equal : Node → Node → Bool
  | .bare i, .bare j => i.equal j
  | .primitive i k e, .primitive j l f => i.equal j && k == l && equalOption Json.equalItems e f
  | .array i n, .array j m => i.equal j && equal n m
  | .object i ps ds, .object j qs es =>
    i.equal j && equalList ps qs && ds.length == es.length && equalDefs ds es
  | .union i ms e, .union j ns f => i.equal j && equalList ms ns && equalOption Json.equalItems e f
  | _, _ => false
def equalList : List Node → List Node → Bool
  | [], [] => true
  | n :: ns, m :: ms => equal n m && equalList ns ms
  | _, _ => false
/-- Every entry of the first table has an equal one in the second. -/
def equalDefs : List (String × Node) → List (String × Node) → Bool
  | [], _ => true
  | (k, n) :: ds, es => (match es.lookup k with | some m => equal n m | none => false) && equalDefs ds es
end

def sameShape (a b : Node) : Bool := (a.withInfo Info.unplaced).equal (b.withInfo Info.unplaced)

end Node
end TrackingPlan
