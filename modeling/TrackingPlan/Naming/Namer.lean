import TrackingPlan.Naming.Dialect
import TrackingPlan.Table
/-!
# Namer — one name for each id

Within a scope the names given out are all different, and an id keeps the name it was given first.  A wanted name is
made an identifier; when it is taken, the least number that makes it free is put behind it.  Scopes do not know of each
other.

The candidates are all different, so one more of them than there are names taken is enough to find a free one
(`freeFrom`).
-/
namespace TrackingPlan

/-- The names given out in one scope. -/
structure Namer.Scope where
  taken : List String := []
  byId : List (String × String) := []

structure Namer where
  dialect : Dialect
  scopes : List (String × Namer.Scope) := []

namespace Namer

def defaultScope : String := "default"

def ofLanguage (l : Language) : Namer := { dialect := .ofLanguage l }

def scope (n : Namer) (s : String) : Scope := (n.scopes.lookup s).getD {}

/-- The name an id has been given in a scope. -/
def lookup (n : Namer) (id s : String) : Option String := (n.scope s).byId.lookup id

/-- The identifier that is asked for by `name`. -/
def wanted (d : Dialect) (name : String) : String := d.escapeIfReserved (d.sanitize name)

/-- The first name that is free among those with the numbers from `counter` on, `tries` of them at most. -/
def freeFrom (d : Dialect) (taken : List String) (base : String) (counter : Nat) : Nat → String
  | 0 => d.withSuffix base counter
  | tries + 1 =>
    let name := d.withSuffix base counter
    if taken.contains name then freeFrom d taken base (counter + 1) tries else name

def freeName (d : Dialect) (taken : List String) (base : String) : String :=
  if taken.contains base then freeFrom d taken base 1 taken.length else base

/-- **The name of an id in a scope**, given out now if it has none, and the namer after that. -/
def register (n : Namer) (id name s : String) : String × Namer :=
  match n.lookup id s with
  | some found => (found, n)
  | none =>
    let sc := n.scope s
    let free := freeName n.dialect sc.taken (wanted n.dialect name)
    (free, { n with scopes := Table.set s ⟨free :: sc.taken, Table.set id free sc.byId⟩ n.scopes })

/-- The namer with a scope begun, whether or not a name is given out in it. -/
def begun (n : Namer) (s : String) : Namer :=
  if (n.scopes.lookup s).isSome then n else { n with scopes := n.scopes ++ [(s, {})] }

/-- Registers a symbol under a text in the dialect's style for such symbols, if it has them. -/
def create (n : Namer) (symbol : Symbol) (id text : String) : Option (String × Namer) :=
  (n.dialect.casing symbol).map (fun style => n.register id (style.convert text) symbol.scope)

/-- All names given out, the scopes, names and ids in order of their code points. -/
def summary (n : Namer) : List (String × List String × List (String × String)) :=
  (n.scopes.map (fun e =>
      (e.1, e.2.taken.mergeSort (· ≤ ·), e.2.byId.mergeSort (fun a b => a.1 ≤ b.1)))).mergeSort
    (fun a b => a.1 ≤ b.1)

end Namer
end TrackingPlan
