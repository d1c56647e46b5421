import TrackingPlan.Build
import TrackingPlan.Command.Arguments
import TrackingPlan.Emission.Preview
import TrackingPlan.Json.Reader
import TrackingPlan.Log.Setup
import TrackingPlan.Schema.Record
import TrackingPlan.Text.Terminal
/-!
# Run — the command from its arguments to its output

The command reads an event schema from a file, prepares its build and prints the section asked for, the custom types
and, on request, a preview of the names.  An error of the schema ends it with exit code 1 and its message.
-/
namespace TrackingPlan
namespace Command

/-! ## Paths -/

/-- The steps of a path from the working directory, `none` when it leads out of it. -/
def pathSteps (path : String) : Option (List String) :=
  if path.toList.head? = some '/' then none
  else (path.splitOn "/").foldl (fun steps s => steps.bind (fun ss =>
    if s = "" ∨ s = "." then some ss
    else if s = ".." then (if ss.isEmpty then none else some ss.dropLast)
    else some (ss ++ [s]))) (some [])

/-- The last step of a path. -/
def fileName (path : String) : String := ((pathSteps path).getD (path.splitOn "/")).getLastD ""

/-- A file name without its last extension; a name that starts or ends with its only dot is kept whole. -/
def stem (name : String) : String :=
  let cs := name.toList
  let ext := (cs.reverse.takeWhile (· ≠ '.')).length
  if 0 < ext ∧ ext + 1 < cs.length then String.ofList (cs.take (cs.length - ext - 1)) else name

/-! ## Running -/

structure Outcome where
  exit : Nat
  stdout : String
  stderr : String

/-- The output of a run, or the fault that ended it, and what it logged. -/
structure Run where
  result : Except Fault String
  log : List Log.Record

def sectionOf (b : Build) : Section → Node
  | .event => b.schema
  | .properties => b.properties
  | .traits => b.traits

def recordOf (n : Node) : Except Fault Json :=
  match n.record? with
  | some r => .ok r
  | none => .error .noKind

def recordsOf : List (DefId × Node) → Except Fault (List (String × Json))
  | [] => .ok []
  | (id, n) :: ts => do
    let r ← recordOf n
    let rs ← recordsOf ts
    return (id.text, r) :: rs

def previewOf (b : Build) (n : Node) : Except Fault Json := do
  let namer ← b.namer
  match (Preview.ofNode b.client n []).run namer with
  | .ok p _ => return p.toJson
  | .error f _ => throw f

/-- What the command prints of a build. -/
def report (args : Arguments) (b : Build) : Except Fault Json := do
  let node := sectionOf b args.part
  let schema ← recordOf node
  let types ← recordsOf b.customTypes
  let names ← if args.names then (previewOf b node).map (fun p => [("names", p)]) else pure []
  return .obj ([("schema", schema), ("custom_types", .obj types)] ++ names)

def readText (text : String) : Except Fault Json :=
  match Json.read text with
  | .ok v => .ok v
  | .error .malformed => .error .notJson
  | .error .numberTooLong => .error .numberTooLong

/-- **Runs the command on the text of its file**, `fileName` being the last step of the path. -/
def run (args : Arguments) (fileName text : String) : Run :=
  match readText text with
  | .error f => ⟨.error f, []⟩
  | .ok raw =>
    let name := args.name.getD (stem fileName)
    match (Build.prepare raw name { language := .known args.language }).run {} with
    | .error f l => ⟨.error f, l.log⟩
    | .ok b l => ⟨(report args b).map (fun r => r.indented ++ "\n"), l.log⟩

/-- **What is printed**, the message without terminal sequences, unless a fault other than a schema error ends the
command; and what goes to the log. -/
def Run.outcome (r : Run) (verbose : Bool) : Except Fault Outcome × String :=
  let log := (Log.Setup.configured verbose).written r.log
  match r.result with
  | .ok out => (.ok ⟨0, out, log⟩, log)
  | .error (.schema e) => (.ok ⟨1, "", log ++ Terminal.without ("Error: " ++ e.message) ++ "\n"⟩, log)
  | .error f => (.error f, log)

end Command
end TrackingPlan
