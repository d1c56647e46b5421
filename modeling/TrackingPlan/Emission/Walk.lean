import TrackingPlan.Emission.Client
/-!
# Walk — from a node to what an emitter makes of it

A walk goes over a node from the bottom up.  Each node is handed to the hook of its kind with its path and with what was
made of its children.  A node that is to be referenced goes to the `reference` hook; one that stands for a custom type
is walked as that type, at the same path.  An array is always walked as such.

Following custom types leaves the tree, so `walkWithin` counts how far the walk may still follow.  A chain longer than
there are custom types meets one twice and would never end.
-/
namespace TrackingPlan
namespace Walk

/-- The way to a node: property names, `items`, and the numbers of union members. -/
abbrev Path : Type := List Json

/-- What an emitter makes of each kind of node, `σ` being its state and `α` its results. -/
structure Hooks (σ α : Type) where
  primitive : Info → Primitive → Option (List Json) → Path → EStateM Fault σ α
  array : Info → α → Path → EStateM Fault σ α
  /-- The results of the properties come with their names. -/
  object : Info → List (Json × α) → Path → EStateM Fault σ α
  union : Info → Option (List Json) → List α → Path → EStateM Fault σ α
  reference : Node → String → Path → EStateM Fault σ α

variable {σ α : Type}

/-- Walks a custom type, given by its id, at a path. -/
abbrev Follow (σ α : Type) : Type := String → Path → EStateM Fault σ α

def memberStep (index : Nat) : Json := .str (Numeral.nat index)

mutual
/-- Walks a node; `origin` is the custom type that it itself is. -/
def walkNode (c : Client) (h : Hooks σ α) (follow : Follow σ α) (origin : Option String) :
    Node → Path → EStateM Fault σ α
  | .array i n, path => do
    let a ← walkNode c h follow none n (path ++ [.str "items"])
    h.array i a path
  | .primitive i p e, path =>
    match c.typeReference? (.primitive i p e) with
    | some r => h.reference (.primitive i p e) r path
    | none => match c.standsFor? (.primitive i p e) with
      | some r => if origin = some r then h.primitive i p e path else follow r path
      | none => h.primitive i p e path
  | .object i ps ds, path =>
    match c.typeReference? (.object i ps ds) with
    | some r => h.reference (.object i ps ds) r path
    | none => do
      let as ← walkProperties c h follow path ps
      h.object i as path
  | .union i ms e, path =>
    match c.typeReference? (.union i ms e) with
    | some r => h.reference (.union i ms e) r path
    | none => do
      let as ← walkMembers c h follow path 0 ms
      h.union i e as path
  | .bare i, path =>
    match c.typeReference? (.bare i) with
    | some r => h.reference (.bare i) r path
    | none => throw .unknownNode
def walkProperties (c : Client) (h : Hooks σ α) (follow : Follow σ α) (path : Path) :
    List Node → EStateM Fault σ (List (Json × α))
  | [] => pure []
  | n :: ns => do
    let a ← walkNode c h follow none n (path ++ [n.info.name])
    let as ← walkProperties c h follow path ns
    return (n.info.name, a) :: as
def walkMembers (c : Client) (h : Hooks σ α) (follow : Follow σ α) (path : Path) (index : Nat) :
    List Node → EStateM Fault σ (List α)
  | [] => pure []
  | n :: ns => do
    let a ← walkNode c h follow none n (path ++ [memberStep index])
    let as ← walkMembers c h follow path (index + 1) ns
    return a :: as
end

/-- A walk that follows at most `depth` custom types inside one another. -/
def walkWithin (c : Client) (h : Hooks σ α) : Nat → Option String → Node → Path → EStateM Fault σ α
  | 0 => walkNode c h (fun _ _ => throw .endlessAlias)
  | depth + 1 => walkNode c h (fun id path => match c.type? id with
    | some n => walkWithin c h depth (some id) n path
    | none => throw (.noSuchType id))

/-- **Walks a node.** -/
def walk (c : Client) (h : Hooks σ α) (n : Node) (path : Path) : EStateM Fault σ α :=
  walkWithin c h c.types.length none n path

def stepText : Json → Except Fault String
  | .str s => .ok s
  | _ => .error .pathNotText

/-- The steps of a path with a text between them; all have to be texts. -/
def joinPath (between : String) (path : Path) : Except Fault String :=
  (path.mapM stepText).map (String.intercalate between)

end Walk
end TrackingPlan
