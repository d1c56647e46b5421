import TrackingPlan.Proofs.Parser.Faultless
import TrackingPlan.Proofs.Resolver.Faults
import TrackingPlan.Proofs.Resolver.Stop
/-!
# Blame — where an error of a call stands

An error that stands at one schema is met in the definition that is the innermost in progress where the call stops: at
a site of that definition, for what is wrong there or for a reference that does not resolve.  When the call has no
definition in progress there, the error is of what the call itself was asked for.  One statement (`stop_tells`) has
both, from that for scripts (`scriptStop_tells`) by induction on the depth of a resolution.
-/
namespace TrackingPlan

/-- **An error that stands at one schema**: any but a ring of definitions. -/
def Fault.Local (f : Fault) : Prop := ∃ e, f = .schema e ∧ ∀ ids, e.cause ≠ .cycle ids

theorem Fault.Local.isSchema {f : Fault} (h : f.Local) : f.IsSchema := by
  obtain ⟨e, he, -⟩ := h
  exact ⟨e, he⟩

/-- What the definitions are entered by is declared. -/
theorem Definitions.find?_of_mem_entries {ds : Definitions} {id : DefId} {d : Json} (h : .ok (id, d) ∈ ds.entries) :
    ds.find? id ≠ .ok none := by
  cases ds with
  | keyed ms =>
    obtain ⟨⟨k, v⟩, hmem, he⟩ := List.mem_map.1 h
    cases he
    intro hnone
    have hk := List.lookup_eq_none_iff.1 (Except.ok.inj hnone) _ hmem
    rw [bne_self_eq_false] at hk
    cases hk
  | listed vs =>
    obtain ⟨v, hmem, he⟩ := List.mem_map.1 h
    unfold entry at he
    split at he
    · next i hi =>
      cases hw : entryFor vs i with
      | error f => rw [hw] at he; cases he
      | ok w =>
        rw [hw] at he
        cases he
        -- only a number or a truth value counts to an entry, and it equals itself
        have hself : v.equal id.value = true := by
          rw [(number_of_entryFor hw).2, Json.equalNumbers_iff]
          cases v with
          | int n => cases hi; exact ⟨_, rfl, rfl⟩
          | bool b => cases hi; exact ⟨_, rfl, rfl⟩
          | _ => cases hi <;> cases hw
        rw [find?, if_pos (List.any_eq_true.2 ⟨v, hmem, hself⟩), hw]
        exact fun hnone => by cases hnone
    · cases he
  | text s => cases List.mem_singleton.1 h
  | other => cases List.mem_singleton.1 h

namespace Resolver

open Script (Request Spec)
open TrackingPlan.Parser (Site)

variable {r : Resolver} {inner : Resolution} {α β : Type}

/-! ## What an error says of a ledger -/

/-- **A reference that does not resolve**, and why. -/
inductive Unresolvable (r : Resolver) (ref : String) : BadReference → Prop where
  | notLocal (h : Pointer.target? ref = none) : Unresolvable r ref .notLocal
  | undefined {k} (h : Pointer.target? ref = some k)
    (hd : r.definitions.find? (.key k) = .ok none ∨ ∃ b, r.definitions.find? (.key k) = .ok (some (.bool b))) :
    Unresolvable r ref (.undefined (.key k))

/-- **The error stands at the site**: for what is wrong with the site itself, or for its reference, in the definition
that is the innermost in progress. -/
inductive Bears (r : Resolver) (inside : Option DefId) (s : Site) : Fault → Prop where
  | own {f} (h : s.Blames f) : Bears r inside s f
  | reference {ref why} (href : s.reference? = some ref) (h : r.Unresolvable ref why) :
    Bears r inside s (.schema ⟨.badReference ref why, s.place, inside⟩)

/-- A site of the innermost definition that is in progress. -/
def Innermost (r : Resolver) (m : Ledger) (s : Site) : Prop :=
  ∃ id d, m.inProgress.head? = some id ∧ r.definitions.find? id = .ok (some d) ∧
    Site.Reaches true ⟨d, false, Pointer.ofDefinition id.text⟩ s

/-- **What a step that stops tells**: it stands at a site of the innermost definition in progress, or no other one is in
progress than before the step, and it is `own` to the step. -/
def Tells (r : Resolver) (l m : Ledger) (f : Fault) (own : Prop) : Prop :=
  (∃ s, r.Innermost m s ∧ r.Bears m.inProgress.head? s f) ∨ m.inProgress = l.inProgress ∧ own

theorem Tells.imp {l m : Ledger} {f : Fault} {own own' : Prop} (h : r.Tells l m f own) (ho : own → own') :
    r.Tells l m f own' :=
  h.imp_right (And.imp_right ho)

theorem Tells.after {l l' m : Ledger} {f : Fault} {own : Prop} (h : r.Tells l' m f own)
    (hl : l'.inProgress = l.inProgress) : r.Tells l m f own :=
  h.imp_right (And.imp_left (·.trans hl))

/-- The error of an id that is not declared. -/
def Undeclared (r : Resolver) (id : DefId) (path : Location) (f : Fault) : Prop :=
  r.definitions.find? id = .ok none ∧ f = .schema ⟨.badReference ("#/$defs/" ++ id.text) (.undefined id), path, none⟩

/-- The error of a reference, in the definition that is the innermost in progress. -/
def BadlyReferred (r : Resolver) (l : Ledger) (ref : String) (path : Location) (f : Fault) : Prop :=
  ∃ why, r.Unresolvable ref why ∧ f = .schema ⟨.badReference ref why, path, l.inProgress.head?⟩

/-- The error of a request that a script may make. -/
def BadlyAsked (r : Resolver) (l : Ledger) (f : Fault) : Request → Prop
  | .reference ref place => r.BadlyReferred l ref place f
  | .definition key place _ => r.Undeclared (.key key) place f

theorem BadlyAsked.of_inProgress {l l' : Ledger} {f : Fault} {q : Request} (h : r.BadlyAsked l' f q)
    (hl : l'.inProgress = l.inProgress) : r.BadlyAsked l f q := by
  cases q with
  | reference => rwa [BadlyAsked, BadlyReferred, ← hl]
  | definition => exact h

theorem stopFrom_tells {p : Parsing α} {f' : α → Parsing β} {stopped : Ledger} {next : α → Ledger → Ledger}
    {l : Ledger} {f : Fault} {own : Prop} (h : (p >>= f').outcome l = .error f)
    (hp : p.outcome l = .error f → r.Tells l stopped f own)
    (hnext : ∀ a, (f' a).outcome (p.after l) = .error f → r.Tells l (next a (p.after l)) f own) :
    r.Tells l (stopFrom p stopped next l) f own := by
  unfold stopFrom
  rcases Parsing.error_of_bind h with he | ⟨a, ha, he⟩
  · rw [he]; exact hp he
  · rw [ha]; exact hnext a he

/-- What a resolution that fails tells. -/
def ResolutionTells (r : Resolver) (inner : Resolution) (inside : DefId → Location → Ledger → Ledger) : Prop :=
  ∀ id path l f, r.Valid l → (inner id path).outcome l = .error f → f.Local →
    r.Tells l (inside id path l) f (r.Undeclared id path f)

section

variable {inside : DefId → Location → Ledger → Ledger} (htells : r.ResolutionTells inner inside) {l : Ledger}
  {f : Fault}

include htells

theorem referenceStop_tells {ref : String} {path : Location} (hl : r.Valid l)
    (h : (r.referenceWith inner ref path).outcome l = .error f) (hf : f.Local) :
    r.Tells l (r.referenceStop inside ref path l) f (r.BadlyReferred l ref path f) := by
  unfold Parsing.outcome at h
  rw [referenceWith_eq] at h
  unfold referenceStop
  cases hk : Pointer.target? ref with
  | none => rw [hk] at h; cases h; exact .inr ⟨rfl, _, .notLocal hk, rfl⟩
  | some k =>
    rw [hk] at h
    simp only at h ⊢
    cases hd : r.definitions.find? (.key k) with
    | error g => rw [hd] at h; cases h; exact absurd hf.isSchema (Definitions.find?_error hd).not_schema
    | ok d =>
      rw [hd] at h
      cases d with
      | none => cases h; exact .inr ⟨rfl, _, .undefined hk (.inl hd), rfl⟩
      | some d =>
        cases d with
        | bool b => cases h; exact .inr ⟨rfl, _, .undefined hk (.inr ⟨b, hd⟩), rfl⟩
        | _ =>
          refine (htells _ path l f hl h hf).imp ?_
          rintro ⟨hnone, -⟩
          rw [hd] at hnone
          cases hnone

variable (hkeeps : r.ResolutionKeeps inner)

include hkeeps

/-- **A script that fails** does so at a site of the innermost definition, by a fault of its own or by a request. -/
theorem scriptStop_tells {A : Request → Prop} {F : Fault → Prop} (s : Script α) : ∀ {Q : List Request → α → Prop}
    {l : Ledger}, Spec A F s Q → r.Valid l → (s.run (r.linksWith inner)).outcome l = .error f → f.Local →
      r.Tells l (r.scriptStop inner inside s l) f (F f ∨ ∃ q, A q ∧ r.BadlyAsked l f q) := by
  induction s with
  | done a => intro Q l _ _ h; cases h
  | fail g => intro Q l hs _ h _; cases h; exact .inr ⟨rfl, .inl hs⟩
  | note x next ih => exact fun hs hl h hf => ih hs (Keeps.record x hl).step.valid h hf
  | reference ref place next ih =>
    intro Q l hs hl h hf
    have hstep := (linksWith_reference_keeps hkeeps ref place hl).step
    refine stopFrom_tells h (fun href => ?_) (fun _ hnext => ?_)
    · replace href : (r.referenceWith inner ref place >>= fun _ => pure ()).outcome l = .error f := href
      rcases Parsing.error_of_bind href with hbad | ⟨_, -, hok⟩
      · exact (referenceStop_tells htells hl hbad hf).imp fun hbad => .inr ⟨_, hs.1, hbad⟩
      · cases hok
    · refine ((ih hs.2 hstep.valid hnext hf).after hstep.inProgress).imp (Or.imp_right ?_)
      exact fun ⟨q, hq, hbad⟩ => ⟨q, hq, hbad.of_inProgress hstep.inProgress⟩
  | definition key place next ih =>
    intro Q l hs hl h hf
    have hstep := (hkeeps.key key place hl).step
    refine stopFrom_tells h (fun hdef => ?_) (fun n hnext => ?_)
    · exact (htells _ place l f hl hdef hf).imp fun hbad => .inr ⟨_, (hs .anything).1, hbad⟩
    · refine ((ih n (hs n).2 hstep.valid hnext hf).after hstep.inProgress).imp (Or.imp_right ?_)
      exact fun ⟨q, hq, hbad⟩ => ⟨q, hq, hbad.of_inProgress hstep.inProgress⟩

/-- **A definition that fails to be parsed** does so at one of its own sites, or further inside. -/
theorem registerStop_tells {id : DefId} {d : Json} (hl : r.Valid l) (hd : r.definitions.find? id = .ok (some d))
    (hids : ∀ i ∈ l.inProgress, i.same id = false) (hnew : ∀ e ∈ l.registry, e.1.same id = false)
    (h : (r.registerWith inner id d).outcome l = .error f) (hf : f.Local) :
    r.Tells l (r.registerStop inner inside id d l) f False := by
  replace h : (Parsing.within id ((definitionScript id d).run (r.linksWith inner)) >>= fun node =>
      Parsing.ofExcept (r.withDescription node) >>= fun node => do
        modify (fun l => { l with registry := l.registry ++ [(id, node)] })
        return node).outcome
      ((Parsing.note .debug logger ("Resolving custom type '" ++ id.text ++ "'")).after l) = .error f := h
  unfold registerStop
  refine stopFrom_tells h (fun hparse => ?_) (fun n hdesc => ?_)
  · rw [Parsing.outcome_within] at hparse
    have hentered : r.Valid { (Parsing.note .debug logger ("Resolving custom type '" ++ id.text ++ "'")).after l with
      inProgress := id :: l.inProgress } := ⟨hl.pending.cons hd hids hnew, hl.sound⟩
    have hkeep := Parser.script_keeps true d (nameFor id d) false (Pointer.ofDefinition id.text)
    rcases scriptStop_tells htells hkeeps (definitionScript id d) hkeep hentered hparse hf with
      hin | ⟨hprog, ⟨t, ht, hblame⟩ | ⟨q, ⟨t, ht, hasks⟩, hbad⟩⟩
    · exact .inl hin
    · exact .inl ⟨t, ⟨id, d, congrArg List.head? hprog, hd, ht⟩, .own hblame⟩
    · cases hasks with
      | reference href =>
        obtain ⟨why, hwhy, rfl⟩ := hbad
        have hhead := congrArg List.head? hprog
        exact .inl ⟨t, ⟨id, d, hhead, hd, ht⟩, (congrArg (r.Bears · t _) hhead).mpr (.reference href hwhy)⟩
      | definition hroot => exact absurd hroot.2 ht.place_ne_root
  · rcases Parsing.error_of_bind hdesc with hbad | ⟨_, -, hok⟩
    · rw [Parsing.outcome_ofExcept] at hbad
      exact absurd hf.isSchema (withDescription_error hbad).not_schema
    · cases hok

theorem resolveStopWith_tells : r.ResolutionTells (r.resolveWith inner) (r.resolveStopWith inner inside) := by
  intro id path l f hl h hf
  unfold Parsing.outcome at h
  rw [resolveWith_eq] at h
  unfold resolveStopWith
  cases hreg : l.registered? id with
  | some node => rw [hreg] at h; cases h
  | none =>
    rw [hreg] at h
    cases hprog : l.isInProgress id with
    | true =>
      rw [hprog] at h
      cases h
      obtain ⟨e, he, hc⟩ := hf
      cases he
      exact (hc _ rfl).elim
    | false =>
      rw [hprog] at h
      simp only [Bool.false_eq_true, if_false] at h ⊢
      cases hd : r.definitions.find? id with
      | error g => rw [hd] at h; cases h; exact absurd hf.isSchema (Definitions.find?_error hd).not_schema
      | ok d =>
        rw [hd] at h
        cases d with
        | none => cases h; exact .inr ⟨rfl, hd, rfl⟩
        | some d =>
          refine (registerStop_tells htells hkeeps hl hd ?_ ?_ h hf).imp False.elim
          · exact not_same_of_isInProgress hprog
          · exact not_same_of_registered? hreg

end

theorem resolveStopWithin_tells (r : Resolver) : ∀ depth,
    r.ResolutionTells (r.resolveWithin depth) (r.resolveStopWithin depth)
  | 0 => by
    refine resolveStopWith_tells (fun id path l f _ h hf => ?_) (fun _ _ _ hl => .fail _ hl)
    cases h
    obtain ⟨e, he, hc⟩ := hf
    cases he
    exact (hc _ rfl).elim
  | depth + 1 => resolveStopWith_tells (resolveStopWithin_tells r depth) (r.resolveWithin_keeps depth)

theorem resolveStop_tells (r : Resolver) : r.ResolutionTells r.resolve r.resolveStop := resolveStopWithin_tells r _

theorem entriesStop_tells : ∀ {es : List (Except Fault (DefId × Json))}, (∀ e ∈ es, e ∈ r.definitions.entries) →
    ∀ {l : Ledger} {f : Fault}, r.Valid l → (r.resolveEntries es).outcome l = .error f → f.Local →
      r.Tells l (r.entriesStop es l) f False
  | [], _, _, _, _, h, _ => by cases h
  | .error g :: es, hes, l, f, _, h, hf => by
    cases h
    exact absurd hf.isSchema (Definitions.entries_error (hes _ List.mem_cons_self)).not_schema
  | .ok (id, d) :: es, hes, l, f, hl, h, hf => by
    have hstep := (resolveEntry_keeps id d hl).step
    replace h : (r.resolveEntry id d >>= fun _ => r.resolveEntries es).outcome l = .error f := h
    refine stopFrom_tells h (fun hentry => ?_) (fun _ hrest => ?_)
    · obtain ⟨hb, hresolve⟩ := resolveEntry_error hentry
      rw [if_neg (Bool.eq_false_iff.1 hb)]
      refine (resolveStop_tells r id "" l f hl hresolve hf).imp fun hbad => ?_
      exact Definitions.find?_of_mem_entries (hes _ List.mem_cons_self) hbad.1
    · exact (entriesStop_tells (fun e he => hes e (List.mem_cons_of_mem _ he)) hstep.valid hrest hf).after
        hstep.inProgress

/-- The error of a call itself, apart from those of the definitions that it resolves. -/
def CallError (r : Resolver) (l : Ledger) (f : Fault) : Call → Prop
  | .resolve id path => r.Undeclared id path f
  | .reference ref path => r.BadlyReferred l ref path f
  | .all | .get _ => False
  | .parse raw _ _ path =>
    (∃ s, Site.Reaches true ⟨raw, false, path⟩ s ∧ r.Bears l.inProgress.head? s f) ∨
      ∃ s k n, Site.Reaches true ⟨raw, false, path⟩ s ∧ s.Asks true (.definition k s.place n) ∧
        r.Undeclared (.key k) s.place f

/-- **An error of a call stands where the call stops**: at a site of the definition that is the innermost in progress
then, or none is in progress besides those before the call, and the error is one of the call itself. -/
theorem stop_tells (c : Call) {l : Ledger} {f : Fault} (hl : r.Valid l) (h : r.Fails c l f) (hf : f.Local) :
    r.Tells l (r.stop c l) f (r.CallError l f c) := by
  cases c with
  | resolve id path => exact resolveStop_tells r id path l f hl h hf
  | reference ref path => exact referenceStop_tells (resolveStop_tells r) hl h hf
  | all => exact entriesStop_tells (fun _ he => he) hl (resolveAll_error h) hf
  | get id => exact h.elim
  | parse raw name isRequired path =>
    have hkeep := Parser.script_keeps true raw name isRequired path
    refine (scriptStop_tells (resolveStop_tells r) r.resolve_keeps _ hkeep hl h hf).imp ?_
    rintro (⟨s, hs, hblame⟩ | ⟨q, ⟨s, hs, hasks⟩, hbad⟩)
    · exact .inl ⟨s, hs, .own hblame⟩
    · cases hasks with
      | reference href =>
        obtain ⟨why, hwhy, rfl⟩ := hbad
        exact .inl ⟨s, hs, .reference href hwhy⟩
      | definition hroot hr hts ht hk hv =>
        exact .inr ⟨s, _, .anything, hs, .definition hroot hr hts ht hk hv, hbad⟩

end Resolver
end TrackingPlan
