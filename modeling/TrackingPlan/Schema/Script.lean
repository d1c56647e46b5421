import TrackingPlan.Ledger
import TrackingPlan.Schema.Pointer
/-!
# Script — a computation that asks for custom types

A parse looks beyond its own schema in two sorts of places only: a reference has to resolve, and a definition of the
root is a custom type.  A `Script` is a computation up to these questions.  Whoever runs it answers them (`Links`),
and what is noted and asked before an answer does not depend on who that is.
-/
namespace TrackingPlan

inductive Script (α : Type) where
  | done (a : α)
  | fail (f : Fault)
  | note (record : Log.Record) (next : Script α)
  /-- Goes on once the reference resolves. -/
  | reference (ref : String) (place : Location) (next : Script α)
  /-- Goes on with the custom type of a definition. -/
  | definition (key : String) (place : Location) (next : Node → Script α)

/-- Answers to what a script asks. -/
structure Links where
  /-- Makes sure a reference resolves. -/
  reference : String → Location → Parsing Unit
  /-- The custom type of a definition of the root. -/
  definition : String → Location → Parsing Node

/-- References are recorded only.  A script to be run so asks for no definition. -/
def Links.recording : Links where
  reference _ _ := pure ()
  definition _ _ := pure .anything

namespace Script

variable {α β : Type}

protected def bind : Script α → (α → Script β) → Script β
  | .done a, f => f a
  | .fail e, _ => .fail e
  | .note r next, f => .note r (next.bind f)
  | .reference ref place next, f => .reference ref place (next.bind f)
  | .definition key place next, f => .definition key place (fun n => (next n).bind f)

instance : Monad Script where
  pure := .done
  bind := Script.bind

def ofExcept : Except Fault α → Script α
  | .ok a => .done a
  | .error f => .fail f

def remark (level : Log.Level) (logger message : String) : Script Unit :=
  .note ⟨level, Log.loggerName logger, message⟩ (.done ())

/-- **Runs a script**, every question being answered by `links`. -/
def run (links : Links) : Script α → Parsing α
  | .done a => pure a
  | .fail f => throw f
  | .note r next => do
    Parsing.record r
    next.run links
  | .reference ref place next => do
    links.reference ref place
    next.run links
  | .definition key place next => do
    let node ← links.definition key place
    (next node).run links

end Script
end TrackingPlan
