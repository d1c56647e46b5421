import TrackingPlan.Proofs.Resolver.Moments
/-!
# Stop — the ledger that a call stops at

`stop` is the ledger that a call fails at, with the definitions that are in progress there; when it succeeds, it is the
one that the call leaves.  It is one of the moments of the call (`stop_mem_moments`), and after it nothing is noted or
registered any more, definitions only cease to be in progress (`stop_unwinds`).
-/
namespace TrackingPlan
namespace Resolver

variable {α : Type}

/-! ## The ledger that a call stops at -/

/-- The ledger that a step stops at, and what follows on its result: `inside` is where the step itself stops. -/
def stopFrom (p : Parsing α) (inside : Ledger) (next : α → Ledger → Ledger) (l : Ledger) : Ledger :=
  match p.outcome l with
  | .ok a => next a (p.after l)
  | .error _ => inside

section

variable (r : Resolver) (inner : Resolution) (inside : DefId → Location → Ledger → Ledger)

def referenceStop (ref : String) (path : Location) (l : Ledger) : Ledger :=
  match Pointer.target? ref with
  | none => l
  | some k => match r.definitions.find? (.key k) with
    | .error _ | .ok none | .ok (some (.bool _)) => l
    | .ok (some _) => inside (.key k) path l

/-- Where a script that is run stops, `inside` being where a resolution does. -/
def scriptStop : Script α → Ledger → Ledger
  | .done _, l | .fail _, l => l
  | .note x next, l => scriptStop next ((Parsing.record x).after l)
  | .reference ref place next, l =>
    stopFrom ((r.linksWith inner).reference ref place) (r.referenceStop inside ref place l) (fun _ => scriptStop next) l
  | .definition key place next, l =>
    stopFrom (inner (.key key) place) (inside (.key key) place l) (fun n => scriptStop (next n)) l

/-- Where the parse of a definition stops; once it is over, the definition is no longer in progress. -/
def registerStop (id : DefId) (definition : Json) (l : Ledger) : Ledger :=
  let noted := (Parsing.note .debug logger ("Resolving custom type '" ++ id.text ++ "'")).after l
  stopFrom (Parsing.within id ((definitionScript id definition).run (r.linksWith inner)))
    (r.scriptStop inner inside (definitionScript id definition) { noted with inProgress := id :: noted.inProgress })
    (fun _ _ => (r.registerWith inner id definition).after l) noted

def resolveStopWith (id : DefId) (_ : Location) (l : Ledger) : Ledger :=
  match l.registered? id with
  | some _ => l
  | none =>
    if l.isInProgress id then l
    else match r.definitions.find? id with
      | .ok (some definition) => r.registerStop inner inside id definition l
      | _ => l

end

def resolveStopWithin (r : Resolver) : Nat → DefId → Location → Ledger → Ledger
  | 0 => r.resolveStopWith (fun id path => Parsing.fail (.cyclic [id] path)) (fun _ _ l => l)
  | depth + 1 => r.resolveStopWith (r.resolveWithin depth) (r.resolveStopWithin depth)

def resolveStop (r : Resolver) : DefId → Location → Ledger → Ledger := r.resolveStopWithin r.definitions.count

def entriesStop (r : Resolver) : List (Except Fault (DefId × Json)) → Ledger → Ledger
  | [], l => l
  | .error _ :: _, l => l
  | .ok (id, d) :: rest, l =>
    stopFrom (r.resolveEntry id d) (if d.isBool then l else r.resolveStop id "" l) (fun _ => r.entriesStop rest) l

/-- **The ledger that a call stops at**: where it fails, or the one that it leaves. -/
def stop (r : Resolver) : Call → Ledger → Ledger
  | .resolve id path => r.resolveStop id path
  | .reference ref path => r.referenceStop r.resolveStop ref path
  | .all => r.entriesStop r.definitions.entries
  | .get _ => id
  | .parse raw name isRequired path =>
    r.scriptStop r.resolve r.resolveStop (Parser.script true raw name isRequired path)

variable {r : Resolver} {inner : Resolution}

/-! ## It is a moment of the call -/

theorem stopFrom_mem {p : Parsing α} {stopped : Ledger} {next : α → Ledger → Ledger} {moments : List Ledger}
    {nextMoments : α → Ledger → List Ledger} {l : Ledger} (h : stopped ∈ moments)
    (hnext : ∀ a, next a (p.after l) ∈ nextMoments a (p.after l)) :
    stopFrom p stopped next l ∈ moments ++ momentsFrom p nextMoments l := by
  unfold stopFrom momentsFrom
  cases p.outcome l with
  | ok a => exact List.mem_append_right _ (hnext a)
  | error f => exact List.mem_append_left _ h

section

variable {inside : DefId → Location → Ledger → Ledger} {moments : DefId → Location → Ledger → List Ledger}
  (h : ∀ id path l, inside id path l ∈ moments id path l)

include h

theorem referenceStop_mem (ref : String) (path : Location) (l : Ledger) :
    r.referenceStop inside ref path l ∈ r.referenceMoments moments ref path l := by
  unfold referenceStop referenceMoments
  cases Pointer.target? ref with
  | none => exact List.mem_singleton_self l
  | some k =>
    simp only
    cases r.definitions.find? (.key k) with
    | error f => exact List.mem_singleton_self l
    | ok d =>
      cases d with
      | none => exact List.mem_singleton_self l
      | some d =>
        cases d with
        | bool b => exact List.mem_singleton_self l
        | _ => exact h (.key k) path l

theorem scriptStop_mem (s : Script α) : ∀ l, r.scriptStop inner inside s l ∈ r.scriptMoments inner moments s l := by
  induction s with
  | done a => exact fun l => List.mem_singleton_self l
  | fail f => exact fun l => List.mem_singleton_self l
  | note x next ih => exact fun l => List.mem_cons_of_mem _ (ih _)
  | reference ref place next ih =>
    exact fun l => stopFrom_mem (referenceStop_mem h ref place l) (fun _ => ih _)
  | definition key place next ih => exact fun l => stopFrom_mem (h _ place l) (fun n => ih n _)

theorem registerStop_mem (id : DefId) (d : Json) (l : Ledger) :
    r.registerStop inner inside id d l ∈ r.registerMoments inner moments id d l := by
  let entered : Ledger := { (Parsing.note .debug logger ("Resolving custom type '" ++ id.text ++ "'")).after l with
    inProgress := id :: l.inProgress }
  have hparse : r.scriptStop inner inside (definitionScript id d) entered ∈
      r.scriptMoments inner moments (definitionScript id d) entered := scriptStop_mem h _ entered
  unfold registerStop registerMoments stopFrom
  simp only
  split
  · simp
  · exact List.mem_append_left _ (List.mem_cons_of_mem _ (List.mem_cons_of_mem _ hparse))

theorem resolveStopWith_mem (id : DefId) (path : Location) (l : Ledger) :
    r.resolveStopWith inner inside id path l ∈ r.resolveMomentsWith inner moments id path l := by
  unfold resolveStopWith resolveMomentsWith
  cases l.registered? id with
  | some node => exact List.mem_singleton_self l
  | none =>
    cases l.isInProgress id with
    | true => exact List.mem_singleton_self l
    | false =>
      cases r.definitions.find? id with
      | error f => exact List.mem_singleton_self l
      | ok d =>
        cases d with
        | none => exact List.mem_singleton_self l
        | some d => exact registerStop_mem h id d l

end

theorem resolveStopWithin_mem (r : Resolver) : ∀ (depth : Nat) (id : DefId) (path : Location) (l : Ledger),
    r.resolveStopWithin depth id path l ∈ r.resolveMomentsWithin depth id path l
  | 0 => resolveStopWith_mem (fun _ _ l => List.mem_singleton_self l)
  | depth + 1 => resolveStopWith_mem (resolveStopWithin_mem r depth)

theorem entriesStop_mem (r : Resolver) : ∀ (es : List (Except Fault (DefId × Json))) (l : Ledger),
    r.entriesStop es l ∈ r.entriesMoments es l
  | [], l => List.mem_singleton_self l
  | .error _ :: _, l => List.mem_singleton_self l
  | .ok (id, d) :: es, l => by
    rw [entriesStop, entriesMoments]
    refine stopFrom_mem ?_ (fun _ => entriesStop_mem r es _)
    split
    · exact List.mem_singleton_self l
    · exact resolveStopWithin_mem r _ id "" l

/-- **A call stops at one of its moments.** -/
theorem stop_mem_moments (r : Resolver) (c : Call) (l : Ledger) : r.stop c l ∈ r.moments c l := by
  have h := resolveStopWithin_mem r r.definitions.count
  cases c with
  | resolve id path => exact h id path l
  | reference ref path => exact referenceStop_mem h ref path l
  | all => exact entriesStop_mem r _ l
  | get id => exact List.mem_singleton_self l
  | parse raw name isRequired path => exact scriptStop_mem h _ l

/-! ## From there on the call only unwinds -/

/-- **A ledger that is left by definitions only**: some of the innermost are no longer in progress. -/
def Unwinds (l l' : Ledger) : Prop := ∃ count, l' = { l with inProgress := l.inProgress.drop count }

theorem Unwinds.refl (l : Ledger) : Unwinds l l := ⟨0, rfl⟩

theorem Unwinds.tail {l l' : Ledger} (h : Unwinds l l') : Unwinds l { l' with inProgress := l'.inProgress.tail } := by
  obtain ⟨count, rfl⟩ := h
  exact ⟨count + 1, by rw [List.tail_drop]⟩

theorem stopFrom_unwinds {β : Type} {p : Parsing α} {f : α → Parsing β} {stopped : Ledger} {next : α → Ledger → Ledger}
    {l : Ledger} (h : ∀ e, p.outcome l = .error e → Unwinds stopped (p.after l))
    (hnext : ∀ a l', Unwinds (next a l') ((f a).after l')) :
    Unwinds (stopFrom p stopped next l) ((p >>= f).after l) := by
  unfold stopFrom
  cases hp : p.outcome l with
  | ok a => rw [Parsing.after_bind_ok hp]; exact hnext a _
  | error e => rw [Parsing.after_bind_error hp]; exact h e hp

section

variable {inside : DefId → Location → Ledger → Ledger}
  (h : ∀ id path l, Unwinds (inside id path l) ((inner id path).after l))

include h

theorem referenceStop_unwinds (ref : String) (path : Location) (l : Ledger) :
    Unwinds (r.referenceStop inside ref path l) ((r.referenceWith inner ref path).after l) := by
  unfold referenceStop Parsing.after
  rw [referenceWith_eq]
  cases Pointer.target? ref with
  | none => exact .refl l
  | some k =>
    simp only
    cases r.definitions.find? (.key k) with
    | error f => exact .refl l
    | ok d =>
      cases d with
      | none => exact .refl l
      | some d =>
        cases d with
        | bool b => exact .refl l
        | _ => exact h (.key k) path l

theorem scriptStop_unwinds (s : Script α) : ∀ l,
    Unwinds (r.scriptStop inner inside s l) ((s.run (r.linksWith inner)).after l) := by
  induction s with
  | done a => exact fun l => .refl l
  | fail f => exact fun l => .refl l
  | note x next ih => exact fun l => ih _
  | reference ref place next ih =>
    intro l
    have href := referenceStop_unwinds (r := r) h ref place l
    rw [← after_linksWith_reference] at href
    exact stopFrom_unwinds (f := fun _ => next.run (r.linksWith inner)) (fun _ _ => href) fun _ => ih
  | definition key place next ih =>
    exact fun l => stopFrom_unwinds (f := fun n => (next n).run (r.linksWith inner)) (fun _ _ => h _ place l) ih

theorem registerStop_unwinds (id : DefId) (d : Json) (l : Ledger) :
    Unwinds (r.registerStop inner inside id d l) ((r.registerWith inner id d).after l) := by
  have hparse := scriptStop_unwinds (r := r) h (definitionScript id d)
    { (Parsing.note .debug logger ("Resolving custom type '" ++ id.text ++ "'")).after l with
      inProgress := id :: l.inProgress }
  unfold registerStop stopFrom
  simp only
  split
  · exact .refl _
  · next f hf =>
    have herror : (r.registerWith inner id d).after l = _ := Parsing.after_bind_error hf _
    rw [herror, Parsing.after_within]
    exact hparse.tail

theorem resolveStopWith_unwinds (id : DefId) (path : Location) (l : Ledger) :
    Unwinds (r.resolveStopWith inner inside id path l) ((r.resolveWith inner id path).after l) := by
  unfold resolveStopWith Parsing.after
  rw [resolveWith_eq]
  cases l.registered? id with
  | some node => exact .refl l
  | none =>
    cases l.isInProgress id with
    | true => exact .refl l
    | false =>
      cases r.definitions.find? id with
      | error f => exact .refl l
      | ok d =>
        cases d with
        | none => exact .refl l
        | some d => exact registerStop_unwinds h id d l

end

theorem resolveStopWithin_unwinds (r : Resolver) : ∀ (depth : Nat) (id : DefId) (path : Location) (l : Ledger),
    Unwinds (r.resolveStopWithin depth id path l) ((r.resolveWithin depth id path).after l)
  | 0 => resolveStopWith_unwinds (fun _ _ l => .refl l)
  | depth + 1 => resolveStopWith_unwinds (resolveStopWithin_unwinds r depth)

theorem entriesStop_unwinds (r : Resolver) : ∀ (es : List (Except Fault (DefId × Json))) (l : Ledger),
    Unwinds (r.entriesStop es l) ((r.resolveEntries es).after l)
  | [], l => .refl l
  | .error _ :: _, l => .refl l
  | .ok (id, d) :: es, l => by
    rw [entriesStop]
    refine stopFrom_unwinds (f := fun _ => r.resolveEntries es) (fun e he => ?_) fun _ => entriesStop_unwinds r es
    split
    · next hb => rw [resolveEntry, if_pos hb] at he; cases he
    · next hb =>
      rw [after_resolveEntry hb]
      exact resolveStopWithin_unwinds r _ id "" l

/-- **After the ledger that a call stops at** nothing is noted or registered. -/
theorem stop_unwinds (r : Resolver) (c : Call) (l : Ledger) : Unwinds (r.stop c l) (r.perform c l) := by
  have h := resolveStopWithin_unwinds r r.definitions.count
  cases c with
  | resolve id path => exact h id path l
  | reference ref path => exact referenceStop_unwinds h ref path l
  | all =>
    rw [perform, after_resolveAll]
    exact entriesStop_unwinds r _ l
  | get id => exact .refl l
  | parse raw name isRequired path => exact scriptStop_unwinds h _ l

end Resolver
end TrackingPlan
