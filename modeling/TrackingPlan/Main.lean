import TrackingPlan.Command.Run
/-!
# Main — the command line
-/
open TrackingPlan Command

def usage : String :=
  "Usage: [--name TEXT] [--section event|properties|traits] [--language NAME] [--names] [--verbose] PATH"

def main (args : List String) : IO UInt32 := do
  match Arguments.ofList? args with
  | none =>
    IO.eprintln usage
    return 2
  | some a =>
    let text ← try some <$> IO.FS.readFile a.path catch _ => pure none
    match text with
    | none =>
      IO.eprintln usage
      return 2
    | some text =>
      let (outcome, log) := (run a (fileName a.path) text).outcome a.verbose
      match outcome with
      | .ok o =>
        IO.print o.stdout
        IO.eprint o.stderr
        return o.exit.toUInt32
      | .error f =>
        IO.eprint log
        IO.eprintln ((f.message?).getD "the document cannot be processed")
        return 1
