import TrackingPlan.Naming.Dialect
/-!
# Arguments — the arguments of the command

Options and the one path may stand in any order; after `--` everything is a path.  A long option takes its value behind
`=` or from the next argument, a short one from the rest of its argument or the next one, and flags may be written
together.  Where an option is given twice the last one counts.
-/
namespace TrackingPlan
namespace Command

inductive Section where
  | event
  | properties
  | traits
deriving DecidableEq

def Section.ofText? : String → Option Section
  | "event" => some .event
  | "properties" => some .properties
  | "traits" => some .traits
  | _ => none

structure Arguments where
  name : Option String := none
  part : Section := .event
  language : Language := .typescript
  names : Bool := false
  verbose : Bool := false
  path : String

/-- The options, by what they set. -/
inductive Opt where
  | name
  | part
  | language
  | names
  | verbose
deriving DecidableEq

namespace Opt

def long? : String → Option Opt
  | "--name" => some .name
  | "--section" => some .part
  | "--language" => some .language
  | "--names" => some .names
  | "--verbose" => some .verbose
  | _ => none

def short? : Char → Option Opt
  | 'n' => some .name
  | 's' => some .part
  | 'l' => some .language
  | 'v' => some .verbose
  | _ => none

def takesValue : Opt → Bool
  | .names | .verbose => false
  | _ => true

end Opt

/-- Options given so far, with their values, and the paths. -/
structure Given where
  values : List (Opt × String) := []
  paths : List String := []

def Given.add (g : Given) (o : Opt) (v : String) : Given := { g with values := (o, v) :: g.values }

/-- Reads short options written together; a value that is not there is taken from the next arguments. -/
def readShort (g : Given) (rest : List String) : List Char → Option (Given × List String)
  | [] => some (g, rest)
  | c :: cs => match Opt.short? c with
    | none => none
    | some o =>
      if !o.takesValue then readShort (g.add o "") rest cs
      else if !cs.isEmpty then some (g.add o (String.ofList cs), rest)
      else match rest with
        | v :: rest => some (g.add o v, rest)
        | [] => none

/-- Splits an argument at its first `=`. -/
def splitValue (arg : List Char) : List Char × Option (List Char) :=
  match arg.dropWhile (· ≠ '=') with
  | _ :: v => (arg.takeWhile (· ≠ '='), some v)
  | [] => (arg, none)

/-- Reads one argument that is an option, `rest` being those behind it. -/
def readOption (g : Given) (rest : List String) (arg : List Char) : Option (Given × List String) :=
  let (key, value) := splitValue arg
  match Opt.long? (String.ofList key), value with
  | some o, some v => if o.takesValue then some (g.add o (String.ofList v), rest) else none
  | some o, none =>
    if !o.takesValue then some (g.add o "", rest)
    else match rest with
      | v :: rest => some (g.add o v, rest)
      | [] => none
  | none, _ => match arg with
    | '-' :: '-' :: _ => none
    | _ => readShort g rest (arg.drop 1)

/-- Reads all arguments, `count` of them at most. -/
def readAll (g : Given) : Nat → List String → Option Given
  | _, [] => some g
  | 0, _ => none
  | n + 1, arg :: rest =>
    if arg = "--" then some { g with paths := g.paths ++ rest }
    else match arg.toList with
      | '-' :: c :: cs => match readOption g rest ('-' :: c :: cs) with
        | some (g, rest) => readAll g n rest
        | none => none
      | _ => readAll { g with paths := g.paths ++ [arg] } n rest

/-- The values given to an option, the last one in front. -/
def Given.of (g : Given) (o : Opt) : List String := (g.values.filter (fun e => e.1 = o)).map Prod.snd

/-- The value that counts for an option with a fixed choice; an unknown last one is an error. -/
def chosen {α : Type} (usual : α) (choose : String → Option α) : List String → Option α
  | [] => some usual
  | v :: _ => choose v

/-- **The arguments of the command**, `none` on a usage error. -/
def Arguments.ofList? (args : List String) : Option Arguments := do
  let g ← readAll {} args.length args
  let part ← chosen .event Section.ofText? (g.of .part)
  let language ← chosen .typescript Language.ofText? (g.of .language)
  match g.paths with
  | [path] =>
    some { name := (g.of .name).head?, part, language, names := !(g.of .names).isEmpty,
           verbose := !(g.of .verbose).isEmpty, path }
  | _ => none

end Command
end TrackingPlan
