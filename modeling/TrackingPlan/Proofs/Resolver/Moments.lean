import TrackingPlan.Proofs.Resolver.Calls
/-!
# Moments — the ledger at every moment of a call

`moments` are the ledgers that a call goes through, each operation of the resolver having its own.  None is left out:
from each to the next there is a single change (`trail_moments`).  At every one of them the ledger is valid
(`moments_pass`), so what is in progress is declared, in progress once and not yet registered, and what is registered
stands behind all that it names.
-/
namespace TrackingPlan
namespace Resolver

variable {α : Type}

/-- The ledgers from the end of a step on: those of what follows on its result, or the one that it failed with. -/
def momentsFrom (p : Parsing α) (next : α → Ledger → List Ledger) (l : Ledger) : List Ledger :=
  match p.outcome l with
  | .ok a => next a (p.after l)
  | .error _ => [p.after l]

section

variable (r : Resolver) (inner : Resolution) (inside : DefId → Location → Ledger → List Ledger)

def referenceMoments (ref : String) (path : Location) (l : Ledger) : List Ledger :=
  match Pointer.target? ref with
  | none => [l]
  | some k => match r.definitions.find? (.key k) with
    | .error _ | .ok none | .ok (some (.bool _)) => [l]
    | .ok (some _) => inside (.key k) path l

/-- The ledgers while a script is run, `inside` being those of a resolution. -/
def scriptMoments : Script α → Ledger → List Ledger
  | .done _, l | .fail _, l => [l]
  | .note x next, l => l :: scriptMoments next ((Parsing.record x).after l)
  | .reference ref place next, l =>
    r.referenceMoments inside ref place l
      ++ momentsFrom ((r.linksWith inner).reference ref place) (fun _ => scriptMoments next) l
  | .definition key place next, l =>
    inside (.key key) place l ++ momentsFrom (inner (.key key) place) (fun n => scriptMoments (next n)) l

/-- The ledgers while a definition is parsed and registered. -/
def registerMoments (id : DefId) (definition : Json) (l : Ledger) : List Ledger :=
  let noted := (Parsing.note .debug logger ("Resolving custom type '" ++ id.text ++ "'")).after l
  let parse := (definitionScript id definition).run (r.linksWith inner)
  l :: noted :: r.scriptMoments inner inside (definitionScript id definition)
      { noted with inProgress := id :: noted.inProgress }
    ++ [(Parsing.within id parse).after noted, (r.registerWith inner id definition).after l]

def resolveMomentsWith (id : DefId) (_ : Location) (l : Ledger) : List Ledger :=
  match l.registered? id with
  | some _ => [l]
  | none =>
    if l.isInProgress id then [l]
    else match r.definitions.find? id with
      | .ok (some definition) => r.registerMoments inner inside id definition l
      | _ => [l]

end

def resolveMomentsWithin (r : Resolver) : Nat → DefId → Location → Ledger → List Ledger
  | 0 => r.resolveMomentsWith (fun id path => Parsing.fail (.cyclic [id] path)) (fun _ _ l => [l])
  | depth + 1 => r.resolveMomentsWith (r.resolveWithin depth) (r.resolveMomentsWithin depth)

def resolveMoments (r : Resolver) : DefId → Location → Ledger → List Ledger :=
  r.resolveMomentsWithin r.definitions.count

def entriesMoments (r : Resolver) : List (Except Fault (DefId × Json)) → Ledger → List Ledger
  | [], l => [l]
  | .error _ :: _, l => [l]
  | .ok (id, d) :: rest, l =>
    (if d.isBool then [l] else r.resolveMoments id "" l)
      ++ momentsFrom (r.resolveEntry id d) (fun _ => r.entriesMoments rest) l

/-- **The ledgers that a call goes through.** -/
def moments (r : Resolver) : Call → Ledger → List Ledger
  | .resolve id path => r.resolveMoments id path
  | .reference ref path => r.referenceMoments r.resolveMoments ref path
  | .all => r.entriesMoments r.definitions.entries
  | .get _ => fun l => [l]
  | .parse raw name isRequired path =>
    r.scriptMoments r.resolve r.resolveMoments (Parser.script true raw name isRequired path)

/-! ## They are all there is on the way -/

/-- **What happens to a ledger at once**: nothing, or one entry more or less. -/
inductive Change (l : Ledger) : Ledger → Prop where
  | none : Change l l
  | noted (x : Log.Record) : Change l { l with log := l.log ++ [x] }
  | entered (id : DefId) : Change l { l with inProgress := id :: l.inProgress }
  | left : Change l { l with inProgress := l.inProgress.tail }
  | registered (id : DefId) (n : Node) : Change l { l with registry := l.registry ++ [(id, n)] }

/-- **All ledgers from one to another**, with a single change between each and the next. -/
inductive Trail : Ledger → Ledger → List Ledger → Prop where
  | last (l) : Trail l l [l]
  | cons {l m l' ms} (h : Change l m) (ht : Trail m l' ms) : Trail l l' (l :: ms)

theorem Trail.append {l m m' l' : Ledger} {ms ms' : List Ledger} (h : Trail l m ms) (hc : Change m m')
    (h' : Trail m' l' ms') : Trail l l' (ms ++ ms') := by
  induction h with
  | last l => exact .cons hc h'
  | cons hl _ ih => exact .cons hl (ih hc)

variable {r : Resolver} {β : Type}

theorem trail_momentsFrom (p : Parsing α) (f : α → Parsing β) (next : α → Ledger → List Ledger) (l : Ledger)
    (h : ∀ a l', Trail l' ((f a).after l') (next a l')) :
    Trail (p.after l) ((p >>= f).after l) (momentsFrom p next l) := by
  unfold momentsFrom
  split
  · next a ha =>
    rw [Parsing.after_bind_ok ha]
    exact h a _
  · next e he =>
    rw [Parsing.after_bind_error he]
    exact .last _

def MomentsTrail (inner : Resolution) (inside : DefId → Location → Ledger → List Ledger) : Prop :=
  ∀ id path l, Trail l ((inner id path).after l) (inside id path l)

variable {inner : Resolution} {inside : DefId → Location → Ledger → List Ledger}

theorem trail_referenceMoments (h : MomentsTrail inner inside) (ref : String) (path : Location) (l : Ledger) :
    Trail l ((r.referenceWith inner ref path).after l) (r.referenceMoments inside ref path l) := by
  unfold referenceMoments Parsing.after
  rw [referenceWith_eq]
  cases Pointer.target? ref with
  | none => exact .last l
  | some k =>
    simp only
    cases r.definitions.find? (.key k) with
    | error f => exact .last l
    | ok d =>
      cases d with
      | none => exact .last l
      | some d =>
        cases d with
        | bool b => exact .last l
        | _ => exact h (.key k) path l

theorem trail_scriptMoments (h : MomentsTrail inner inside) (s : Script α) : ∀ l : Ledger,
    Trail l ((s.run (r.linksWith inner)).after l) (r.scriptMoments inner inside s l) := by
  induction s with
  | done a => exact fun l => .last l
  | fail f => exact fun l => .last l
  | note x next ih => exact fun l => .cons (.noted x) (ih _)
  | reference ref place next ih =>
    intro l
    have href := trail_referenceMoments (r := r) h ref place l
    rw [← after_linksWith_reference] at href
    exact href.append .none (trail_momentsFrom _ (fun _ => next.run (r.linksWith inner)) _ l (fun _ => ih))
  | definition key place next ih =>
    intro l
    exact (h _ place l).append .none (trail_momentsFrom _ (fun n => (next n).run (r.linksWith inner)) _ l ih)

/-- Once a definition is parsed, either it is registered or nothing more happens. -/
theorem change_registerWith (inner : Resolution) (id : DefId) (d : Json) (l : Ledger) :
    let noted := (Parsing.note .debug logger ("Resolving custom type '" ++ id.text ++ "'")).after l
    Change ((Parsing.within id ((definitionScript id d).run (r.linksWith inner))).after noted)
      ((r.registerWith inner id d).after l) := by
  intro noted
  have hnoted : (r.registerWith inner id d).after l =
      (Parsing.within id ((definitionScript id d).run (r.linksWith inner)) >>= fun node =>
        Parsing.ofExcept (r.withDescription node) >>= fun node => do
          modify (fun l => { l with registry := l.registry ++ [(id, node)] })
          return node).after noted := rfl
  rw [hnoted]
  cases hparse : (Parsing.within id ((definitionScript id d).run (r.linksWith inner))).outcome noted with
  | error f => rw [Parsing.after_bind_error hparse]; exact .none
  | ok n =>
    rw [Parsing.after_bind_ok hparse]
    cases r.withDescription n with
    | error f => exact .none
    | ok node => exact .registered id node

theorem trail_registerMoments (h : MomentsTrail inner inside) (id : DefId) (d : Json) (l : Ledger) :
    Trail l ((r.registerWith inner id d).after l) (r.registerMoments inner inside id d l) := by
  have hparse := trail_scriptMoments (r := r) h (definitionScript id d)
    { (Parsing.note .debug logger ("Resolving custom type '" ++ id.text ++ "'")).after l with
      inProgress := id :: l.inProgress }
  refine .append (.cons (.noted _) (.cons (.entered id) hparse)) ?_
    (.cons (change_registerWith inner id d l) (.last _))
  rw [Parsing.after_within]
  exact .left

theorem trail_resolveMomentsWith (h : MomentsTrail inner inside) :
    MomentsTrail (r.resolveWith inner) (r.resolveMomentsWith inner inside) := by
  intro id path l
  unfold resolveMomentsWith Parsing.after
  rw [resolveWith_eq]
  cases l.registered? id with
  | some node => exact .last l
  | none =>
    cases l.isInProgress id with
    | true => exact .last l
    | false =>
      cases r.definitions.find? id with
      | error f => exact .last l
      | ok d =>
        cases d with
        | none => exact .last l
        | some d => exact trail_registerMoments h id d l

theorem trail_resolveMomentsWithin (r : Resolver) : ∀ depth,
    MomentsTrail (r.resolveWithin depth) (r.resolveMomentsWithin depth)
  | 0 => trail_resolveMomentsWith (fun _ _ l => .last l)
  | depth + 1 => trail_resolveMomentsWith (trail_resolveMomentsWithin r depth)

theorem trail_entriesMoments (r : Resolver) : ∀ (es : List (Except Fault (DefId × Json))) (l : Ledger),
    Trail l ((r.resolveEntries es).after l) (r.entriesMoments es l)
  | [], l => .last l
  | .error _ :: _, l => .last l
  | .ok (id, d) :: es, l => by
    have hrest := trail_momentsFrom (r.resolveEntry id d) (fun _ => r.resolveEntries es)
      (fun _ => r.entriesMoments es) l (fun _ => trail_entriesMoments r es)
    rw [entriesMoments]
    split
    · next hb =>
      refine Trail.append (.last l) ?_ hrest
      rw [resolveEntry, if_pos hb]
      exact .noted _
    · next hb =>
      rw [after_resolveEntry hb] at hrest
      exact (trail_resolveMomentsWithin r _ id "" l).append .none hrest

/-- **The moments of a call are all ledgers on the way** from the one before it to the one it leaves. -/
theorem trail_moments (r : Resolver) (c : Call) (l : Ledger) : Trail l (r.perform c l) (r.moments c l) := by
  have hinside := trail_resolveMomentsWithin r r.definitions.count
  cases c with
  | resolve id path => exact hinside id path l
  | reference ref path => exact trail_referenceMoments hinside ref path l
  | all =>
    rw [perform, after_resolveAll]
    exact trail_entriesMoments r _ l
  | get id => exact .last l
  | parse raw name isRequired path => exact trail_scriptMoments hinside _ l

/-! ## They are valid -/

structure Passing (r : Resolver) (l m : Ledger) : Prop where
  valid : r.Valid m
  registry : l.registry <+: m.registry

theorem Passing.of_valid {l : Ledger} (h : r.Valid l) : r.Passing l l := ⟨h, List.prefix_rfl⟩

theorem Step.passing {l l' : Ledger} (h : r.Step l l') : r.Passing l l' := ⟨h.valid, h.registry⟩

theorem Passing.after {l l' m : Ledger} (h : r.Passing l' m) (hl : l.registry <+: l'.registry) : r.Passing l m :=
  ⟨h.valid, hl.trans h.registry⟩

theorem passing_start {l m : Ledger} (h : r.Valid l) (hm : m ∈ [l]) : r.Passing l m := by
  rw [List.mem_singleton.1 hm]; exact .of_valid h

theorem passing_momentsFrom {p : Parsing α} {next : α → Ledger → List Ledger} {l : Ledger} (h : r.Step l (p.after l))
    (hnext : ∀ a, ∀ m ∈ next a (p.after l), r.Passing (p.after l) m) : ∀ m ∈ momentsFrom p next l, r.Passing l m := by
  intro m hm
  unfold momentsFrom at hm
  split at hm
  · exact (hnext _ m hm).after h.registry
  · rw [List.mem_singleton.1 hm]; exact h.passing

def MomentsPass (r : Resolver) (inside : DefId → Location → Ledger → List Ledger) : Prop :=
  ∀ id path l, r.Valid l → ∀ m ∈ inside id path l, r.Passing l m

theorem referenceMoments_pass (h : r.MomentsPass inside) (ref : String) (path : Location) {l : Ledger}
    (hl : r.Valid l) : ∀ m ∈ r.referenceMoments inside ref path l, r.Passing l m := by
  intro m hm
  unfold referenceMoments at hm
  split at hm
  · exact passing_start hl hm
  · split at hm
    · exact passing_start hl hm
    · exact passing_start hl hm
    · exact passing_start hl hm
    · exact h _ _ l hl m hm

theorem scriptMoments_pass (hinner : r.ResolutionKeeps inner) (h : r.MomentsPass inside) (s : Script α) :
    ∀ {l : Ledger}, r.Valid l → ∀ m ∈ r.scriptMoments inner inside s l, r.Passing l m := by
  induction s with
  | done a => exact fun hl m hm => passing_start hl hm
  | fail f => exact fun hl m hm => passing_start hl hm
  | note x next ih =>
    intro l hl m hm
    have hstep := (Keeps.record x hl).step
    rcases List.mem_cons.1 hm with rfl | hm
    · exact .of_valid hl
    · exact (ih hstep.valid m hm).after hstep.registry
  | reference ref place next ih =>
    intro l hl m hm
    rcases List.mem_append.1 hm with hm | hm
    · exact referenceMoments_pass h ref place hl m hm
    · have hstep := (linksWith_reference_keeps hinner ref place hl).step
      exact passing_momentsFrom hstep (fun _ => ih hstep.valid) m hm
  | definition key place next ih =>
    intro l hl m hm
    rcases List.mem_append.1 hm with hm | hm
    · exact h _ _ l hl m hm
    · have hstep := (hinner.key key place hl).step
      exact passing_momentsFrom hstep (fun n => ih n hstep.valid) m hm

theorem registerMoments_pass (hinner : r.ResolutionKeeps inner) (h : r.MomentsPass inside) {id : DefId} {d : Json}
    {l : Ledger} (hl : r.Valid l) (hd : r.definitions.find? id = .ok (some d))
    (hids : ∀ i ∈ l.inProgress, i.same id = false) (hnew : ∀ e ∈ l.registry, e.1.same id = false) :
    ∀ m ∈ r.registerMoments inner inside id d l, r.Passing l m := by
  intro m hm
  have hnoted : r.Step l ((Parsing.note .debug logger ("Resolving custom type '" ++ id.text ++ "'")).after l) :=
    (Keeps.record _ hl).step
  have hentered : r.Valid { (Parsing.note .debug logger ("Resolving custom type '" ++ id.text ++ "'")).after l with
      inProgress := id :: l.inProgress } := ⟨hl.pending.cons hd hids hnew, hl.sound⟩
  have hwithin := (run_keeps hinner (definitionScript id d) hentered).within.step
  rcases List.mem_append.1 hm with hm | hm
  · rcases List.mem_cons.1 hm with rfl | hm
    · exact .of_valid hl
    rcases List.mem_cons.1 hm with rfl | hm
    · exact hnoted.passing
    · exact (scriptMoments_pass hinner h _ hentered m hm).after List.prefix_rfl
  · rcases List.mem_cons.1 hm with rfl | hm
    · exact hwithin.passing.after List.prefix_rfl
    · rw [List.mem_singleton.1 hm]
      exact (registerWith_keeps hinner hl hd hids hnew).step.passing

theorem resolveMomentsWith_pass (hinner : r.ResolutionKeeps inner) (h : r.MomentsPass inside) :
    r.MomentsPass (r.resolveMomentsWith inner inside) := by
  intro id path l hl m hm
  unfold resolveMomentsWith at hm
  split at hm
  · exact passing_start hl hm
  · next hnone =>
    split at hm
    · exact passing_start hl hm
    · next hprog =>
      split at hm
      · next d hd =>
        exact registerMoments_pass hinner h hl hd (not_same_of_isInProgress (Bool.eq_false_iff.2 hprog))
          (not_same_of_registered? hnone) m hm
      · exact passing_start hl hm

theorem resolveMomentsWithin_pass (r : Resolver) : ∀ depth, r.MomentsPass (r.resolveMomentsWithin depth)
  | 0 => resolveMomentsWith_pass (fun _ _ _ hl => .fail _ hl) (fun _ _ _ hl _ hm => passing_start hl hm)
  | depth + 1 => resolveMomentsWith_pass (r.resolveWithin_keeps depth) (resolveMomentsWithin_pass r depth)

theorem entriesMoments_pass (r : Resolver) : ∀ (es : List (Except Fault (DefId × Json))) {l : Ledger}, r.Valid l →
    ∀ m ∈ r.entriesMoments es l, r.Passing l m
  | [], _, hl, _, hm => passing_start hl hm
  | .error _ :: _, _, hl, _, hm => passing_start hl hm
  | .ok (id, d) :: es, l, hl, m, hm => by
    rcases List.mem_append.1 hm with hm | hm
    · split at hm
      · exact passing_start hl hm
      · exact resolveMomentsWithin_pass r _ id "" l hl m hm
    · have hstep := (resolveEntry_keeps id d hl).step
      exact passing_momentsFrom hstep (fun _ => entriesMoments_pass r es hstep.valid) m hm

/-- **At every moment of a call** from a valid ledger the ledger is valid. -/
theorem moments_pass (c : Call) {l : Ledger} (hl : r.Valid l) : ∀ m ∈ r.moments c l, r.Passing l m := by
  have hinside := resolveMomentsWithin_pass r r.definitions.count
  cases c with
  | resolve id path => exact hinside id path l hl
  | reference ref path => exact referenceMoments_pass hinside ref path hl
  | all => exact entriesMoments_pass r _ hl
  | get id => exact fun m hm => passing_start hl hm
  | parse raw name isRequired path => exact scriptMoments_pass r.resolve_keeps hinside _ hl

/-! ## What this says of a session -/

/-- **Every entry stands behind those of all that its node names.** -/
def Topological (reg : Registry) : Prop :=
  ∀ before id node after, reg = before ++ (id, node) :: after →
    ∀ name, node.Names name → ∃ n, (DefId.key name, n) ∈ before

structure Orderly (r : Resolver) (l : Ledger) : Prop where
  distinct : l.inProgress.Pairwise (fun a b => a.same b = false)
  declared : ∀ id ∈ l.inProgress, ∃ d, r.definitions.find? id = .ok (some d)
  unregistered : ∀ id ∈ l.inProgress, ∀ e ∈ l.registry, e.1.same id = false
  bounded : l.inProgress.length ≤ r.definitions.count
  topological : Topological l.registry

theorem Valid.orderly {l : Ledger} (h : r.Valid l) : r.Orderly l where
  distinct := h.pending.distinct
  declared := h.pending.declared
  unregistered := h.pending.apart
  bounded := h.pending.length_le
  topological _ _ _ _ he := h.sound.names_earlier he

/-- **The resolver's invariant.**  After any history, one more call goes through orderly ledgers only, each with what
was registered before the call, in its order and with only new entries behind; after the call nothing is in progress.
-/
theorem session_invariant (r : Resolver) (calls : List Call) (c : Call) :
    Trail (r.performAll calls) (r.performAll (calls ++ [c])) (r.moments c (r.performAll calls)) ∧
      (∀ m ∈ r.moments c (r.performAll calls), r.Orderly m ∧ (r.performAll calls).registry <+: m.registry) ∧
      (r.performAll (calls ++ [c])).inProgress = [] ∧
      (r.performAll calls).registry <+: (r.performAll (calls ++ [c])).registry := by
  obtain ⟨hl, hnone⟩ := valid_performAll r calls
  have hstep := perform_step c hl
  have hlast : r.performAll (calls ++ [c]) = r.perform c (r.performAll calls) := performAll_concat r calls c
  refine ⟨?_, fun m hm => ?_, ?_, ?_⟩
  · rw [hlast]
    exact trail_moments r c _
  · have hm := moments_pass c hl m hm
    exact ⟨hm.valid.orderly, hm.registry⟩
  · rw [hlast, hstep.inProgress, hnone]
  · rw [hlast]
    exact hstep.registry

end Resolver
end TrackingPlan
