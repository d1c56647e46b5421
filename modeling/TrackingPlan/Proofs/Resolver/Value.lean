import TrackingPlan.Proofs.Resolver.Session
import TrackingPlan.Proofs.Script.Answer
/-!
# Value — resolution without a registry

`valueWithin` is what a definition resolves to when nothing is ever registered: it is parsed anew whenever it is
referred to, and all there is to know of the past are the definitions in progress.  Whatever a sound registry holds is
such a value (`value_of_registered`): what led to it was registered before, so no way through it comes back to a
definition in progress.  Hence a resolution with a registry ends with the value of its definition, in success and
failure (`outcome_resolveWithin`).
-/
namespace TrackingPlan

variable {α : Type}

namespace Resolver

open Script (Request)

/-- What a definition resolves to, for the definitions in progress. -/
abbrev Valuation : Type := List DefId → DefId → Location → Except Fault Node

section

variable (r : Resolver) (inner : Valuation) (inProgress : List DefId)

def referenceValue (ref : String) (path : Location) : Except Fault Node :=
  match Pointer.target? ref with
  | none => .error (.schema ⟨.badReference ref .notLocal, path, inProgress.head?⟩)
  | some k => match r.definitions.find? (.key k) with
    | .error f => .error f
    | .ok none | .ok (some (.bool _)) =>
      .error (.schema ⟨.badReference ref (.undefined (.key k)), path, inProgress.head?⟩)
    | .ok (some _) => inner inProgress (.key k) path

def answerWith (s : Script α) : Except Fault α :=
  s.answer (fun ref path => (r.referenceValue inner inProgress ref path).map (fun _ => ()))
    (fun key path => inner inProgress (.key key) path)

def valueWith (id : DefId) (path : Location) : Except Fault Node :=
  if inProgress.any (·.same id) then .error (.schema (.cyclic (ring inProgress id) path))
  else match r.definitions.find? id with
    | .error f => .error f
    | .ok none => .error (.schema ⟨.badReference ("#/$defs/" ++ id.text) (.undefined id), path, none⟩)
    | .ok (some d) => do
      let node ← r.answerWith inner (id :: inProgress) (definitionScript id d)
      r.withDescription node

end

/-- **The value of a definition** through at most `depth` definitions inside one another. -/
def valueWithin (r : Resolver) : Nat → Valuation
  | 0 => r.valueWith (fun _ id path => .error (.schema (.cyclic [id] path)))
  | depth + 1 => r.valueWith (r.valueWithin depth)

variable {r : Resolver}

/-! ## Values of what is registered -/

/-- A valuation that answers a request. -/
def Answers (r : Resolver) (inner : Valuation) (inProgress : List DefId) : Request → Prop
  | .reference ref place => ∃ n, r.referenceValue inner inProgress ref place = .ok n
  | .definition key place n => inner inProgress (.key key) place = .ok n

theorem answers_iff {inner : Valuation} {inProgress : List DefId} {q : Request} : r.Answers inner inProgress q ↔
    Script.Answered (fun ref path => (r.referenceValue inner inProgress ref path).map (fun _ => ()))
      (fun key path => inner inProgress (.key key) path) q := by
  cases q with
  | reference ref place =>
    show (∃ n, r.referenceValue inner inProgress ref place = .ok n) ↔
      (r.referenceValue inner inProgress ref place).map (fun _ => ()) = .ok ()
    cases r.referenceValue inner inProgress ref place with
    | ok n => exact ⟨fun _ => rfl, fun _ => ⟨n, rfl⟩⟩
    | error f => exact ⟨fun ⟨_, h⟩ => (by cases h), fun h => (by cases h)⟩
  | definition => exact Iff.rfl

/-- A script comes to a result when it ends with it after requests that the valuation answers. -/
theorem answerWith_eq_ok_iff {inner : Valuation} {inProgress : List DefId} {s : Script α} {a : α} :
    r.answerWith inner inProgress s = .ok a ↔ ∃ rs, s.Ends rs a ∧ ∀ q ∈ rs, r.Answers inner inProgress q := by
  simp only [answers_iff]
  exact Script.answer_eq_ok_iff

theorem AnsweredBy.answers {reg : Registry} {inner : Valuation} {inProgress : List DefId}
    (h : ∀ k n path, (.key k, n) ∈ reg → inner inProgress (.key k) path = .ok n) {q : Request}
    (hq : r.AnsweredBy reg q) :
    r.Answers inner inProgress q := by
  cases q with
  | reference ref place =>
    obtain ⟨k, d, n, hk, hd, hb, hn⟩ := hq
    refine ⟨n, ?_⟩
    unfold referenceValue
    rw [hk]
    simp only [hd]
    cases d with
    | bool b => cases hb
    | _ => exact h k n place hn
  | definition key place n => exact h key n place hq

theorem valueWith_of_registered {reg : Registry} {inner : Valuation} {inProgress : List DefId} {id : DefId}
    {node : Node} (hids : ∀ i ∈ inProgress, i.same id = false) (hnode : r.Registered reg id node)
    (h : ∀ k n path, (.key k, n) ∈ reg → inner (id :: inProgress) (.key k) path = .ok n) (path : Location) :
    r.valueWith inner inProgress id path = .ok node := by
  obtain ⟨d, rs, n, hd, hends, hrs, hdesc⟩ := hnode
  have hany : inProgress.any (·.same id) = false := by simpa using hids
  unfold valueWith
  rw [hany, hd]
  simp only [Bool.false_eq_true, if_false]
  rw [answerWith_eq_ok_iff.2 ⟨rs, hends, fun q hq => (hrs q hq).answers h⟩]
  exact hdesc

/-- **What is registered is the value of its definition**, whatever is in progress beside it. -/
theorem value_of_registered {reg : Registry} (h : r.Sound reg) : ∀ {depth : Nat} {inProgress : List DefId},
    r.Pending reg inProgress → r.definitions.count ≤ depth + inProgress.length →
    ∀ k n path, (.key k, n) ∈ reg → r.valueWithin depth inProgress (.key k) path = .ok n := by
  induction h with
  | nil => intro _ _ _ _ k n path hn; cases hn
  | @snoc reg id node h hnew hnode ih =>
    intro depth inProgress hp hcount k n path hn
    have hreg : r.Pending reg inProgress := hp.mono (List.subset_append_left _ _)
    rcases List.mem_append.1 hn with hn | hn
    · exact ih hreg hcount k n path hn
    · cases List.mem_singleton.1 hn
      have ⟨d, _, _, hd, _⟩ := hnode
      have hids : ∀ i ∈ inProgress, i.same (.key k) = false := fun i hi => by
        rw [DefId.same_comm]
        exact hp.apart i hi _ (List.mem_append_right _ (List.mem_singleton_self _))
      have hinside := hreg.cons hd hids hnew
      have hlen := hinside.length_le
      rw [List.length_cons] at hlen
      cases depth with
      | zero => omega
      | succ depth =>
        exact valueWith_of_registered hids hnode (ih hinside (by rw [List.length_cons]; omega)) path

/-! ## Resolutions and their values -/

/-- A resolution ends with the values, for these definitions in progress. -/
def Matches (r : Resolver) (inner : Resolution) (value : Valuation) (inProgress : List DefId) : Prop :=
  ∀ k path l, r.Valid l → l.inProgress = inProgress → (inner (.key k) path).outcome l = value inProgress (.key k) path

theorem outcome_referenceWith {inner : Resolution} {value : Valuation} {inProgress : List DefId}
    (h : r.Matches inner value inProgress) (ref : String) (path : Location) {l : Ledger} (hl : r.Valid l)
    (hin : l.inProgress = inProgress) :
    (r.referenceWith inner ref path).outcome l = r.referenceValue value inProgress ref path := by
  unfold referenceValue Parsing.outcome
  rw [referenceWith_eq, hin]
  cases Pointer.target? ref with
  | none => rfl
  | some k =>
    simp only
    cases r.definitions.find? (.key k) with
    | error f => rfl
    | ok d =>
      cases d with
      | none => rfl
      | some d =>
        cases d with
        | bool b => rfl
        | _ => exact h k path l hl hin

/-- **A script that is run** ends as it does by the values. -/
theorem outcome_run {inner : Resolution} {value : Valuation} {inProgress : List DefId}
    (hkeeps : r.ResolutionKeeps inner) (h : r.Matches inner value inProgress) (s : Script α) :
    ∀ {l : Ledger}, r.Valid l → l.inProgress = inProgress →
      (s.run (r.linksWith inner)).outcome l = r.answerWith value inProgress s := by
  induction s with
  | done a => exact fun _ _ => rfl
  | fail f => exact fun _ _ => rfl
  | note x next ih => exact fun hl hin => ih (Keeps.record x hl).step.valid hin
  | reference ref place next ih =>
    intro l hl hin
    have hstep := (linksWith_reference_keeps hkeeps ref place hl).step
    have href : ((r.linksWith inner).reference ref place).outcome l =
        (r.referenceValue value inProgress ref place).map (fun _ => ()) := by
      show (r.referenceWith inner ref place >>= fun _ => pure ()).outcome l = _
      rw [Parsing.outcome_bind, outcome_referenceWith h ref place hl hin]
      cases r.referenceValue value inProgress ref place <;> rfl
    show ((r.linksWith inner).reference ref place >>= fun _ => next.run (r.linksWith inner)).outcome l = _
    rw [Parsing.outcome_bind, href, ih hstep.valid (hstep.inProgress.trans hin)]
    rfl
  | definition key place next ih =>
    intro l hl hin
    have hstep := (hkeeps.key key place hl).step
    show (inner (.key key) place >>= fun n => (next n).run (r.linksWith inner)).outcome l = _
    rw [Parsing.outcome_bind, h key place l hl hin]
    simp only [ih _ hstep.valid (hstep.inProgress.trans hin)]
    rfl

theorem outcome_registerWith {inner : Resolution} {value : Valuation} {id : DefId} {d : Json} {l : Ledger}
    (hkeeps : r.ResolutionKeeps inner) (h : r.Matches inner value (id :: l.inProgress)) (hl : r.Valid l)
    (hd : r.definitions.find? id = .ok (some d)) (hids : ∀ i ∈ l.inProgress, i.same id = false)
    (hnew : ∀ e ∈ l.registry, e.1.same id = false) :
    (r.registerWith inner id d).outcome l =
      r.answerWith value (id :: l.inProgress) (definitionScript id d) >>= r.withDescription := by
  have hpending := hl.pending.cons hd hids hnew
  have hrun := outcome_run hkeeps h (definitionScript id d) (l := { (Parsing.note .debug logger
      ("Resolving custom type '" ++ id.text ++ "'")).after l with inProgress := id :: l.inProgress })
    ⟨hpending, hl.sound⟩ rfl
  unfold registerWith
  rw [Parsing.outcome_bind]
  show (Parsing.within id _ >>= _).outcome _ = _
  rw [Parsing.outcome_bind, Parsing.outcome_within]
  refine (congrArg (· >>= _) hrun).trans ?_
  cases r.answerWith value (id :: l.inProgress) (definitionScript id d) with
  | error f => rfl
  | ok n =>
    show (Parsing.ofExcept (r.withDescription n) >>= _).outcome _ = r.withDescription n
    rw [Parsing.outcome_bind, Parsing.outcome_ofExcept]
    cases r.withDescription n <;> rfl

/-- **One definition**, once those that it refers to end with their values. -/
theorem outcome_resolveWith {inner : Resolution} {value : Valuation} {inProgress : List DefId}
    (hkeeps : r.ResolutionKeeps inner)
    (hreg : ∀ reg, r.Sound reg → r.Pending reg inProgress → ∀ k n path, (.key k, n) ∈ reg →
      r.valueWith value inProgress (.key k) path = .ok n)
    (h : ∀ id, r.Pending [] (id :: inProgress) → r.Matches inner value (id :: inProgress)) :
    r.Matches (r.resolveWith inner) (r.valueWith value) inProgress := by
  rintro k path l hl rfl
  unfold Parsing.outcome
  rw [resolveWith_eq]
  cases hnode : l.registered? (.key k) with
  | some node =>
    obtain ⟨i, hi, hmem⟩ := mem_of_registered? hnode
    rw [DefId.same_key hi] at hmem
    exact (hreg l.registry hl.sound hl.pending k node path hmem).symm
  | none =>
    unfold valueWith
    cases hprog : l.isInProgress (.key k) with
    | true => rw [show l.inProgress.any (·.same (.key k)) = true from hprog]; rfl
    | false =>
      rw [show l.inProgress.any (·.same (.key k)) = false from hprog]
      cases hd : r.definitions.find? (.key k) with
      | error f => rfl
      | ok d =>
        cases d with
        | none => rfl
        | some d =>
          have hids := not_same_of_isInProgress hprog
          have hnew := not_same_of_registered? hnode
          have hpending := (hl.pending.cons hd hids hnew).mono (List.nil_subset l.registry)
          exact outcome_registerWith hkeeps (h _ hpending) hl hd hids hnew

/-- **A resolution ends with the value of its definition**, as long as its depth is enough for what is not in
progress. -/
theorem outcome_resolveWithin (r : Resolver) (depth : Nat) : ∀ {inProgress : List DefId},
    r.definitions.count ≤ depth + inProgress.length →
      r.Matches (r.resolveWithin depth) (r.valueWithin depth) inProgress := by
  induction depth with
  | zero =>
    intro inProgress hcount
    refine outcome_resolveWith (fun _ _ _ hl => .fail _ hl) (fun reg hs hp => value_of_registered hs hp hcount) ?_
    intro id hp
    have hlen := hp.length_le
    rw [List.length_cons] at hlen
    omega
  | succ depth ih =>
    intro inProgress hcount
    refine outcome_resolveWith (r.resolveWithin_keeps depth) (fun reg hs hp => value_of_registered hs hp hcount) ?_
    exact fun id _ => ih (by rw [List.length_cons]; omega)

/-! ## The operations of a resolver -/

/-- **The value of a definition** when none is in progress. -/
def value (r : Resolver) : DefId → Location → Except Fault Node := r.valueWithin r.definitions.count []

theorem resolve_matches (r : Resolver) : r.Matches r.resolve (r.valueWithin r.definitions.count) [] :=
  outcome_resolveWithin r _ (Nat.le_add_right _ _)

variable {l : Ledger} (hl : r.Valid l) (hnone : l.inProgress = [])

include hl hnone

theorem outcome_resolve (k : String) (path : Location) : (r.resolve (.key k) path).outcome l = r.value (.key k) path :=
  r.resolve_matches k path l hl hnone

theorem outcome_resolveReference (ref : String) (path : Location) :
    (r.resolveReference ref path).outcome l = r.referenceValue (r.valueWithin r.definitions.count) [] ref path :=
  outcome_referenceWith r.resolve_matches ref path hl hnone

theorem outcome_parse (raw name : Json) (isRequired : Bool) (path : Location) :
    (r.parse raw name isRequired path).outcome l =
      r.answerWith (r.valueWithin r.definitions.count) [] (Parser.script true raw name isRequired path) :=
  outcome_run r.resolve_keeps r.resolve_matches _ hl hnone

end Resolver
end TrackingPlan
