/-!
# Record — log lines

A record is a level, the name of the logger it came through, and a message.  All loggers stand under the package
logger; a name that does not lie under it already is put there.
-/
namespace TrackingPlan
namespace Log

inductive Level where
  | debug
  | info
  | warning
  | error
  | critical
deriving DecidableEq

namespace Level

def rank : Level → Nat
  | .debug => 10
  | .info => 20
  | .warning => 30
  | .error => 40
  | .critical => 50

def text : Level → String
  | .debug => "DEBUG"
  | .info => "INFO"
  | .warning => "WARNING"
  | .error => "ERROR"
  | .critical => "CRITICAL"

def all : List Level := [.debug, .info, .warning, .error, .critical]

/-- The level of that name; two have a second one. -/
def ofText? : String → Option Level
  | "WARN" => some .warning
  | "FATAL" => some .critical
  | s => all.find? (fun l => l.text == s)

end Level

def packageLogger : String := "event_schema_codegen"

/-- The full name of the logger asked for as `name`. -/
def loggerName (name : String) : String :=
  if name = packageLogger ∨ (packageLogger ++ ".").toList.isPrefixOf name.toList then name
  else packageLogger ++ "." ++ name

structure Record where
  level : Level
  logger : String
  message : String
deriving DecidableEq

def Record.line (r : Record) : String := r.level.text ++ " " ++ r.logger ++ ": " ++ r.message

end Log
end TrackingPlan
