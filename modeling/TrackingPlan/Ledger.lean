import TrackingPlan.Fault
import TrackingPlan.Log.Record
import TrackingPlan.Schema.Node
/-!
# Ledger — what a build has done so far

Parsing a document registers custom types, one after the other, and logs; both outlast a failure.  `inProgress` holds
the definitions being parsed at the moment, the innermost first.  A `Parsing` step takes a ledger and answers with a
result or a fault, and in both cases with the ledger after it.
-/
namespace TrackingPlan

structure Ledger where
  registry : List (DefId × Node) := []
  inProgress : List DefId := []
  log : List Log.Record := []

namespace Ledger

def registered? (l : Ledger) (id : DefId) : Option Node := (l.registry.find? (·.1.same id)).map Prod.snd

def isInProgress (l : Ledger) (id : DefId) : Bool := l.inProgress.any (·.same id)

end Ledger

abbrev Parsing (α : Type) : Type := EStateM Fault Ledger α

namespace Parsing

def fail {α : Type} (e : SchemaError) : Parsing α := throw (.schema e)

def ofExcept {α : Type} : Except Fault α → Parsing α
  | .ok a => pure a
  | .error f => throw f

def record (r : Log.Record) : Parsing Unit := modify (fun l => { l with log := l.log ++ [r] })

def note (level : Log.Level) (logger message : String) : Parsing Unit :=
  record ⟨level, Log.loggerName logger, message⟩

/-- Runs a step with a definition in progress, which it no longer is afterwards, however the step ends. -/
def within {α : Type} (id : DefId) (step : Parsing α) : Parsing α := fun l =>
  match step { l with inProgress := id :: l.inProgress } with
  | .ok a l' => .ok a { l' with inProgress := l'.inProgress.tail }
  | .error f l' => .error f { l' with inProgress := l'.inProgress.tail }

end Parsing
end TrackingPlan
