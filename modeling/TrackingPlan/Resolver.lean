import TrackingPlan.Resolver.Definitions
import TrackingPlan.Schema.Parser
/-!
# Resolver — the custom types of a document

A definition is parsed when it is first asked for and then registered, so references may point forward and are followed
through others; only a definition that is met again while it is still being parsed closes a ring, which is an error.
One without a description gets one from the template.

`resolveWith` is one step: `inner` resolves what the definition refers to.  Every definition in progress is declared and
in progress once, so no chain is longer than there are definitions, and `resolve` allows that many steps.  How long a
chain may be, and how deep schemas may lie in one another, has no other limit.
-/
namespace TrackingPlan

structure Resolver where
  definitions : Definitions
  /-- What the document belongs to, for descriptions. -/
  source : String := ""
  template : Json := .str "Custom type for \x7bsource\x7d"

namespace Resolver

def logger : String := Log.packageLogger ++ ".pipeline.analyzer.reference_resolver"

def ofDocument (raw : Json) (source : String) (template : Json) : Except Fault Resolver :=
  (Definitions.ofDocument raw).map (fun ds => { definitions := ds, source, template })

def describe (r : Resolver) : Except Fault Json :=
  match r.template with
  | .str t => match Template.render t r.source with
    | .ok s => .ok (.str s)
    | .error f => .error (.template f)
  | _ => .error .templateNotText

/-- Gives a node without a description the one from the template. -/
def withDescription (r : Resolver) (node : Node) : Except Fault Node :=
  match node.info.description with
  | some _ => .ok node
  | none => r.describe.map (fun d => node.withInfo (fun i => { i with description := some d }))

/-- The ring that ends in `id`, `inProgress` being the definitions in progress, the innermost first. -/
def ring (inProgress : List DefId) (id : DefId) : List DefId :=
  id :: ((inProgress.takeWhile (!·.same id)).reverse ++ [id])

/-- A definition goes by its own title when it has one, else by its id. -/
def nameFor (id : DefId) : Json → Json
  | .obj ms => if (Json.given? (ms.lookup "title")).isSome then .null else id.value
  | _ => id.value

/-- How one definition is resolved: its id, and the place that asks for it. -/
abbrev Resolution : Type := DefId → Location → Parsing Node

def declared? (r : Resolver) (id : DefId) : Parsing (Option Json) := Parsing.ofExcept (r.definitions.find? id)

/-- Checks that a reference is local and declared, and resolves it. -/
def referenceWith (r : Resolver) (inner : Resolution) (ref : String) (path : Location) : Parsing Node := do
  let inside := (← get).inProgress.head?
  match Pointer.target? ref with
  | none => Parsing.fail ⟨.badReference ref .notLocal, path, inside⟩
  | some name =>
    match ← r.declared? (.key name) with
    | none | some (.bool _) => Parsing.fail ⟨.badReference ref (.undefined (.key name)), path, inside⟩
    | some _ => inner (.key name) path

def linksWith (r : Resolver) (inner : Resolution) : Links where
  reference ref path := do
    let _ ← r.referenceWith inner ref path
  definition name path := inner (.key name) path

/-- Parses a definition that is not registered and not in progress, and registers it. -/
def registerWith (r : Resolver) (inner : Resolution) (id : DefId) (definition : Json) : Parsing Node := do
  Parsing.note .debug logger ("Resolving custom type '" ++ id.text ++ "'")
  let node ← Parsing.within id
    (Parser.parse (some (r.linksWith inner)) definition (nameFor id definition) false (Pointer.ofDefinition id.text))
  let node ← Parsing.ofExcept (r.withDescription node)
  modify (fun l => { l with registry := l.registry ++ [(id, node)] })
  return node

def resolveWith (r : Resolver) (inner : Resolution) : Resolution := fun id path => do
  let l ← get
  match l.registered? id with
  | some node => return node
  | none =>
    if l.isInProgress id then Parsing.fail (.cyclic (ring l.inProgress id) path)
    else match ← r.declared? id with
      | none =>
        Parsing.fail ⟨.badReference ("#/$defs/" ++ id.text) (.undefined id), path, none⟩
      | some definition => r.registerWith inner id definition

/-- Resolution through at most `depth` definitions inside one another. -/
def resolveWithin (r : Resolver) : Nat → Resolution
  | 0 => r.resolveWith (fun id path => Parsing.fail (.cyclic [id] path))
  | depth + 1 => r.resolveWith (r.resolveWithin depth)

/-- **Resolves a definition by its id.** -/
def resolve (r : Resolver) : Resolution := r.resolveWithin r.definitions.count

/-- **Resolves a reference.** -/
def resolveReference (r : Resolver) (ref : String) (path : Location) : Parsing Node :=
  r.referenceWith r.resolve ref path

/-- Parses a schema whose references are those of the document. -/
def parse (r : Resolver) (raw : Json) (name : Json) (isRequired : Bool) (path : Location) : Parsing Node :=
  Parser.parse (some (r.linksWith r.resolve)) raw name isRequired path

/-- Resolves one declared definition; a truth value declares none. -/
def resolveEntry (r : Resolver) (id : DefId) (definition : Json) : Parsing Unit :=
  if definition.isBool then Parsing.note .warning logger ("Skipping boolean $defs entry '" ++ id.text ++ "'")
  else do
    let _ ← r.resolve id ""
    return ()

def resolveEntries (r : Resolver) : List (Except Fault (DefId × Json)) → Parsing Unit
  | [] => pure ()
  | entry :: rest => do
    let (id, definition) ← Parsing.ofExcept entry
    r.resolveEntry id definition
    r.resolveEntries rest

/-- **Resolves every definition**, in the order of declaration. -/
def resolveAll (r : Resolver) : Parsing (List (DefId × Node)) := do
  r.resolveEntries r.definitions.entries
  return (← get).registry

end Resolver
end TrackingPlan
