import TrackingPlan.Emission.Walk
/-!
# Plan — a walk before its hooks are run

A walk does not look at what its hooks make of a node, so which hooks it calls is settled beforehand: a `Plan` is the
tree of these calls.  Running it with hooks calls them from the bottom up (`Plan.run`), in the order of `Plan.calls`
(`run_logged`), and running it with hooks that only put plans together gives the plan back (`run_recorder`).
-/
namespace TrackingPlan
namespace Walk

/-! ## Calls of hooks -/

/-- One call of a hook, but for the results that it is given. -/
inductive HookCall where
  | primitive (info : Info) (kind : Primitive) (enum : Option (List Json)) (path : Path)
  | array (info : Info) (path : Path)
  /-- With the names of the properties, in their order. -/
  | object (info : Info) (names : List Json) (path : Path)
  | union (info : Info) (enum : Option (List Json)) (path : Path)
  | reference (node : Node) (id : String) (path : Path)

def HookCall.path : HookCall → Path
  | .primitive _ _ _ path | .array _ path | .object _ _ path | .union _ _ path | .reference _ _ path => path

/-- A walk, whatever its hooks. -/
abbrev Course : Type 1 := (σ α : Type) → Hooks σ α → EStateM Fault σ α

variable {σ α β : Type}

/-- What a hook does, with its call added to a log. -/
def logging (call : HookCall) (step : EStateM Fault σ α) : EStateM Fault (σ × List HookCall) α := fun s =>
  match step s.1 with
  | .ok a s' => .ok a (s', s.2 ++ [call])
  | .error f s' => .error f (s', s.2 ++ [call])

/-- **The hooks with a log** of their calls. -/
def Hooks.logged (h : Hooks σ α) : Hooks (σ × List HookCall) α where
  primitive i p e path := logging (.primitive i p e path) (h.primitive i p e path)
  array i a path := logging (.array i path) (h.array i a path)
  object i as path := logging (.object i (as.map Prod.fst) path) (h.object i as path)
  union i e as path := logging (.union i e path) (h.union i e as path)
  reference n id path := logging (.reference n id path) (h.reference n id path)

/-- **Hooks that return normally**, whatever they are given. -/
structure Hooks.Return (h : Hooks σ α) : Prop where
  primitive : ∀ i p e path s, ∃ a s', h.primitive i p e path s = .ok a s'
  array : ∀ i a path s, ∃ b s', h.array i a path s = .ok b s'
  object : ∀ i as path s, ∃ b s', h.object i as path s = .ok b s'
  union : ∀ i e as path s, ∃ b s', h.union i e as path s = .ok b s'
  reference : ∀ n id path s, ∃ a s', h.reference n id path s = .ok a s'

/-! ## One node -/

/-- What is asked of the custom type that a node itself is, asks nothing of any other node. -/
theorem of_no_origin {P : String → Prop} : ∀ r, none = some r → P r := nofun

section

variable {c : Client} {h : Hooks σ α} {follow : Follow σ α} {origin : Option String} {path : Path}

/-- **A node that is to be referenced is handed over as a reference**, an array apart. -/
theorem walkNode_of_reference {n : Node} {r : String} (href : c.typeReference? n = some r)
    (harray : n.kind? ≠ some .array) : walkNode c h follow origin n path = h.reference n r path := by
  cases n with
  | array => exact absurd rfl harray
  | _ => simp only [walkNode, href]

variable {i : Info} {k : Primitive} {e : Option (List Json)} {ps ms : List Node} {ds : List (String × Node)}

/-- A primitive that stands for no custom type, or for the one that it is itself, goes to its hook. -/
theorem walkNode_itself (href : c.typeReference? (.primitive i k e) = none)
    (hstands : ∀ r, c.standsFor? (.primitive i k e) = some r → origin = some r) :
    walkNode c h follow origin (.primitive i k e) path = h.primitive i k e path := by
  simp only [walkNode, href]
  cases hs : c.standsFor? (.primitive i k e) with
  | none => rfl
  | some r => exact if_pos (hstands r hs)

/-- **A primitive that stands for another type gives way to it.** -/
theorem walkNode_standsFor {r : String} (href : c.typeReference? (.primitive i k e) = none)
    (hstands : c.standsFor? (.primitive i k e) = some r) (ho : origin ≠ some r) :
    walkNode c h follow origin (.primitive i k e) path = follow r path := by
  simp only [walkNode, href, hstands, if_neg ho]

theorem walkNode_object (href : c.typeReference? (.object i ps ds) = none) :
    walkNode c h follow origin (.object i ps ds) path =
      (walkProperties c h follow path ps >>= fun as => h.object i as path) := by
  rw [walkNode, href]

theorem walkNode_union (href : c.typeReference? (.union i ms e) = none) :
    walkNode c h follow origin (.union i ms e) path =
      (walkMembers c h follow path 0 ms >>= fun as => h.union i e as path) := by
  rw [walkNode, href]

end

/-! ## Plans -/

/-- **The calls of a walk as a tree.** -/
inductive Plan where
  | primitive (info : Info) (kind : Primitive) (enum : Option (List Json)) (path : Path)
  | array (info : Info) (items : Plan) (path : Path)
  | object (info : Info) (properties : List (Json × Plan)) (path : Path)
  | union (info : Info) (enum : Option (List Json)) (members : List Plan) (path : Path)
  | reference (node : Node) (id : String) (path : Path)

namespace Plan

mutual
/-- **Runs a plan with hooks.** -/
def run (h : Hooks σ α) : Plan → EStateM Fault σ α
  | .primitive i p e path => h.primitive i p e path
  | .array i a path => do
    let a ← run h a
    h.array i a path
  | .object i ps path => do
    let as ← runProperties h ps
    h.object i as path
  | .union i e ms path => do
    let as ← runMembers h ms
    h.union i e as path
  | .reference n id path => h.reference n id path
def runProperties (h : Hooks σ α) : List (Json × Plan) → EStateM Fault σ (List (Json × α))
  | [] => pure []
  | (name, p) :: ps => do
    let a ← run h p
    let as ← runProperties h ps
    return (name, a) :: as
def runMembers (h : Hooks σ α) : List Plan → EStateM Fault σ (List α)
  | [] => pure []
  | p :: ps => do
    let a ← run h p
    let as ← runMembers h ps
    return a :: as
end

mutual
/-- **The calls of a plan**, in their order. -/
def calls : Plan → List HookCall
  | .primitive i p e path => [.primitive i p e path]
  | .array i a path => calls a ++ [.array i path]
  | .object i ps path => callsOfProperties ps ++ [.object i (ps.map Prod.fst) path]
  | .union i e ms path => callsOfMembers ms ++ [.union i e path]
  | .reference n id path => [.reference n id path]
def callsOfProperties : List (Json × Plan) → List HookCall
  | [] => []
  | (_, p) :: ps => calls p ++ callsOfProperties ps
def callsOfMembers : List Plan → List HookCall
  | [] => []
  | p :: ps => calls p ++ callsOfMembers ps
end

mutual
/-- **The plan is one for a node at this path**, and what lies in it for nodes at the paths behind this one. -/
def At : Plan → Path → Prop
  | .primitive _ _ _ q, path => q = path
  | .array _ a q, path => q = path ∧ At a (path ++ [.str "items"])
  | .object _ ps q, path => q = path ∧ PropertiesAt ps path
  | .union _ _ ms q, path => q = path ∧ MembersAt ms path 0
  | .reference _ _ q, path => q = path
def PropertiesAt : List (Json × Plan) → Path → Prop
  | [], _ => True
  | (name, p) :: ps, path => At p (path ++ [name]) ∧ PropertiesAt ps path
def MembersAt : List Plan → Path → Nat → Prop
  | [], _, _ => True
  | p :: ps, path, index => At p (path ++ [memberStep index]) ∧ MembersAt ps path (index + 1)
end

/-! ### Running with a log -/

theorem bind_eq_ok {p : EStateM Fault σ α} {f : α → EStateM Fault σ β} {s s'' : σ} {b : β} :
    (p >>= f) s = .ok b s'' ↔ ∃ a s', p s = .ok a s' ∧ f a s' = .ok b s'' := by
  show EStateM.bind p f s = _ ↔ _
  unfold EStateM.bind
  constructor
  · intro h
    split at h
    · next a s' hp => exact ⟨a, s', hp, h⟩
    · cases h
  · rintro ⟨a, s', hp, hf⟩
    rw [hp]
    exact hf

theorem logging_ok {call : HookCall} {p : EStateM Fault σ α} {s s' : σ} {a : α} (h : p s = .ok a s')
    (log : List HookCall) : logging call p (s, log) = .ok a (s', log ++ [call]) := by
  simp only [logging, h]

/-- The names of properties are those that their results come with. -/
theorem map_fst_of_runProperties {h : Hooks σ α} : ∀ {ps : List (Json × Plan)} {s s' : σ} {as : List (Json × α)},
    runProperties h ps s = .ok as s' → as.map Prod.fst = ps.map Prod.fst
  | [], _, _, _, hr => by cases hr; rfl
  | (name, p) :: ps, _, _, _, hr => by
    rw [runProperties] at hr
    obtain ⟨a, s', -, hr⟩ := bind_eq_ok.1 hr
    obtain ⟨as, s'', hps, hr⟩ := bind_eq_ok.1 hr
    cases hr
    rw [List.map_cons, List.map_cons, map_fst_of_runProperties hps]

mutual
/-- **A run calls its hooks in the order of the plan's calls.** -/
theorem run_logged (h : Hooks σ α) : ∀ (p : Plan) {s s' : σ} {a : α}, p.run h s = .ok a s' → ∀ log,
    p.run h.logged (s, log) = .ok a (s', log ++ p.calls)
  | .primitive i k e path, _, _, _, hr, log => logging_ok hr log
  | .array i p path, _, _, _, hr, log => by
    rw [run] at hr
    obtain ⟨a, s', hp, hr⟩ := bind_eq_ok.1 hr
    rw [run, calls, ← List.append_assoc]
    exact bind_eq_ok.2 ⟨a, _, run_logged h p hp log, logging_ok hr _⟩
  | .object i ps path, _, _, _, hr, log => by
    rw [run] at hr
    obtain ⟨as, s', hps, hr⟩ := bind_eq_ok.1 hr
    rw [run, calls, ← map_fst_of_runProperties hps, ← List.append_assoc]
    exact bind_eq_ok.2 ⟨as, _, runProperties_logged h ps hps log, logging_ok hr _⟩
  | .union i e ms path, _, _, _, hr, log => by
    rw [run] at hr
    obtain ⟨as, s', hms, hr⟩ := bind_eq_ok.1 hr
    rw [run, calls, ← List.append_assoc]
    exact bind_eq_ok.2 ⟨as, _, runMembers_logged h ms hms log, logging_ok hr _⟩
  | .reference n id path, _, _, _, hr, log => logging_ok hr log
theorem runProperties_logged (h : Hooks σ α) : ∀ (ps : List (Json × Plan)) {s s' : σ} {as : List (Json × α)},
    runProperties h ps s = .ok as s' → ∀ log,
      runProperties h.logged ps (s, log) = .ok as (s', log ++ callsOfProperties ps)
  | [], _, _, _, hr, log => by
    cases hr
    rw [callsOfProperties, List.append_nil]
    rfl
  | (name, p) :: ps, _, _, _, hr, log => by
    rw [runProperties] at hr
    obtain ⟨a, s', hp, hr⟩ := bind_eq_ok.1 hr
    obtain ⟨as, s'', hps, hr⟩ := bind_eq_ok.1 hr
    cases hr
    rw [runProperties, callsOfProperties, ← List.append_assoc]
    exact bind_eq_ok.2 ⟨a, _, run_logged h p hp log,
      bind_eq_ok.2 ⟨as, _, runProperties_logged h ps hps _, rfl⟩⟩
theorem runMembers_logged (h : Hooks σ α) : ∀ (ms : List Plan) {s s' : σ} {as : List α},
    runMembers h ms s = .ok as s' → ∀ log, runMembers h.logged ms (s, log) = .ok as (s', log ++ callsOfMembers ms)
  | [], _, _, _, hr, log => by
    cases hr
    rw [callsOfMembers, List.append_nil]
    rfl
  | p :: ms, _, _, _, hr, log => by
    rw [runMembers] at hr
    obtain ⟨a, s', hp, hr⟩ := bind_eq_ok.1 hr
    obtain ⟨as, s'', hms, hr⟩ := bind_eq_ok.1 hr
    cases hr
    rw [runMembers, callsOfMembers, ← List.append_assoc]
    exact bind_eq_ok.2 ⟨a, _, run_logged h p hp log, bind_eq_ok.2 ⟨as, _, runMembers_logged h ms hms _, rfl⟩⟩
end

/-! ### Running with hooks that return -/

mutual
/-- **With hooks that return normally a run returns.** -/
theorem run_returns {h : Hooks σ α} (hret : h.Return) : ∀ (p : Plan) (s : σ), ∃ a s', p.run h s = .ok a s'
  | .primitive i k e path, s => hret.primitive i k e path s
  | .array i p path, s => by
    obtain ⟨a, s', hp⟩ := run_returns hret p s
    obtain ⟨b, s'', hb⟩ := hret.array i a path s'
    exact ⟨b, s'', by rw [run]; exact bind_eq_ok.2 ⟨a, s', hp, hb⟩⟩
  | .object i ps path, s => by
    obtain ⟨as, s', hps⟩ := runProperties_returns hret ps s
    obtain ⟨b, s'', hb⟩ := hret.object i as path s'
    exact ⟨b, s'', by rw [run]; exact bind_eq_ok.2 ⟨as, s', hps, hb⟩⟩
  | .union i e ms path, s => by
    obtain ⟨as, s', hms⟩ := runMembers_returns hret ms s
    obtain ⟨b, s'', hb⟩ := hret.union i e as path s'
    exact ⟨b, s'', by rw [run]; exact bind_eq_ok.2 ⟨as, s', hms, hb⟩⟩
  | .reference n id path, s => hret.reference n id path s
theorem runProperties_returns {h : Hooks σ α} (hret : h.Return) : ∀ (ps : List (Json × Plan)) (s : σ),
    ∃ as s', runProperties h ps s = .ok as s'
  | [], s => ⟨[], s, rfl⟩
  | (name, p) :: ps, s => by
    obtain ⟨a, s', hp⟩ := run_returns hret p s
    obtain ⟨as, s'', hps⟩ := runProperties_returns hret ps s'
    refine ⟨(name, a) :: as, s'', ?_⟩
    rw [runProperties]
    exact bind_eq_ok.2 ⟨a, s', hp, bind_eq_ok.2 ⟨as, s'', hps, rfl⟩⟩
theorem runMembers_returns {h : Hooks σ α} (hret : h.Return) : ∀ (ms : List Plan) (s : σ),
    ∃ as s', runMembers h ms s = .ok as s'
  | [], s => ⟨[], s, rfl⟩
  | p :: ms, s => by
    obtain ⟨a, s', hp⟩ := run_returns hret p s
    obtain ⟨as, s'', hms⟩ := runMembers_returns hret ms s'
    refine ⟨a :: as, s'', ?_⟩
    rw [runMembers]
    exact bind_eq_ok.2 ⟨a, s', hp, bind_eq_ok.2 ⟨as, s'', hms, rfl⟩⟩
end

/-! ### The plan of a walk -/

/-- Hooks that put plans together. -/
def recorder : Hooks Unit Plan where
  primitive i p e path := pure (.primitive i p e path)
  array i a path := pure (.array i a path)
  object i as path := pure (.object i as path)
  union i e as path := pure (.union i e as path)
  reference n id path := pure (.reference n id path)

theorem recorder_return : recorder.Return where
  primitive _ _ _ _ _ := ⟨_, _, rfl⟩
  array _ _ _ _ := ⟨_, _, rfl⟩
  object _ _ _ _ := ⟨_, _, rfl⟩
  union _ _ _ _ _ := ⟨_, _, rfl⟩
  reference _ _ _ _ := ⟨_, _, rfl⟩

/-- **The plan of the walk over a node.** -/
def ofNode (c : Client) (n : Node) (path : Path) : Except Fault Plan :=
  match walk c recorder n path () with
  | .ok p _ => .ok p
  | .error f _ => .error f

mutual
/-- **A plan is what a run with recording hooks gives.** -/
theorem run_recorder : ∀ p : Plan, p.run recorder () = .ok p ()
  | .primitive .. => rfl
  | .array i p path => by
    rw [run]
    exact bind_eq_ok.2 ⟨p, (), run_recorder p, rfl⟩
  | .object i ps path => by
    rw [run]
    exact bind_eq_ok.2 ⟨ps, (), runProperties_recorder ps, rfl⟩
  | .union i e ms path => by
    rw [run]
    exact bind_eq_ok.2 ⟨ms, (), runMembers_recorder ms, rfl⟩
  | .reference .. => rfl
theorem runProperties_recorder : ∀ ps : List (Json × Plan), runProperties recorder ps () = .ok ps ()
  | [] => rfl
  | (name, p) :: ps => by
    rw [runProperties]
    exact bind_eq_ok.2 ⟨p, (), run_recorder p, bind_eq_ok.2 ⟨ps, (), runProperties_recorder ps, rfl⟩⟩
theorem runMembers_recorder : ∀ ms : List Plan, runMembers recorder ms () = .ok ms ()
  | [] => rfl
  | p :: ms => by
    rw [runMembers]
    exact bind_eq_ok.2 ⟨p, (), run_recorder p, bind_eq_ok.2 ⟨ms, (), runMembers_recorder ms, rfl⟩⟩
end

end Plan
end Walk
end TrackingPlan
