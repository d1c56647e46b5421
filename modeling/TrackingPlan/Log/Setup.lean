import TrackingPlan.Log.Record
/-!
# Setup — what the package logger lets through

Without a setup nothing is written.  A setup writes every record from its level upward, a line each; a new setup takes
the place of the old one.
-/
namespace TrackingPlan
namespace Log

/-- The level in force, `none` while nothing is set up. -/
structure Setup where
  level : Option Level := none
deriving DecidableEq

namespace Setup

def configured (verbose : Bool) : Setup := ⟨some (if verbose then .debug else .warning)⟩

def levelText (s : Setup) : String := (s.level.map Level.text).getD "NOTSET"

def handlers (s : Setup) : Nat := if s.level.isSome then 1 else 0

def passes (s : Setup) (r : Record) : Bool :=
  match s.level with
  | some l => l.rank ≤ r.level.rank
  | none => false

/-- What is written of the records. -/
def written (s : Setup) (rs : List Record) : String :=
  String.join ((rs.filter s.passes).map (fun r => r.line ++ "\n"))

end Setup
end Log
end TrackingPlan
