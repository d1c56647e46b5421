import TrackingPlan.Proofs.Parsing
import TrackingPlan.Proofs.Resolver.Registry
/-!
# Session — what every step of a resolver keeps

A ledger is `Valid` when its registry is sound and the definitions in progress are declared, all different and not
registered.  Every step from a valid ledger leads to a valid one with the same definitions in progress and a registry
that only grew (`Step`), however the step ends; what it ends with is registered then (`Keeps`).  This goes from the
resolution of the definitions that one refers to, to that of the definition (`resolveWith_keeps`), and so by induction
on the depth to all operations of a resolver.
-/
namespace TrackingPlan
namespace Resolver

open Script (Request)

variable {r : Resolver} {α β : Type}

/-- **Definitions that may be in progress beside a registry.** -/
structure Pending (r : Resolver) (reg : Registry) (ids : List DefId) : Prop where
  distinct : ids.Pairwise (fun a b => a.same b = false)
  declared : ∀ id ∈ ids, ∃ d, r.definitions.find? id = .ok (some d)
  apart : ∀ id ∈ ids, ∀ e ∈ reg, e.1.same id = false

namespace Pending

variable {reg : Registry} {ids : List DefId} {id : DefId}

theorem nil (r : Resolver) (reg : Registry) : r.Pending reg [] where
  distinct := .nil
  declared _ h := by cases h
  apart _ h := by cases h

theorem mono {reg' : Registry} (h : r.Pending reg' ids) (hreg : reg ⊆ reg') : r.Pending reg ids :=
  ⟨h.distinct, h.declared, fun i hi e he => h.apart i hi e (hreg he)⟩

theorem cons {d : Json} (h : r.Pending reg ids) (hd : r.definitions.find? id = .ok (some d))
    (hids : ∀ i ∈ ids, i.same id = false) (hreg : ∀ e ∈ reg, e.1.same id = false) : r.Pending reg (id :: ids) where
  distinct := List.pairwise_cons.2 ⟨fun i hi => by rw [DefId.same_comm]; exact hids i hi, h.distinct⟩
  declared := List.forall_mem_cons.2 ⟨⟨d, hd⟩, h.declared⟩
  apart := List.forall_mem_cons.2 ⟨hreg, h.apart⟩

theorem registered (h : r.Pending reg (id :: ids)) (n : Node) : r.Pending (reg ++ [(id, n)]) ids where
  distinct := (List.pairwise_cons.1 h.distinct).2
  declared i hi := h.declared i (List.mem_cons_of_mem _ hi)
  apart i hi e he := by
    rcases List.mem_append.1 he with he | he
    · exact h.apart i (List.mem_cons_of_mem _ hi) e he
    · rw [List.mem_singleton.1 he]
      exact (List.pairwise_cons.1 h.distinct).1 i hi

theorem tail (h : r.Pending reg (id :: ids)) : r.Pending reg ids where
  distinct := (List.pairwise_cons.1 h.distinct).2
  declared i hi := h.declared i (List.mem_cons_of_mem _ hi)
  apart i hi := h.apart i (List.mem_cons_of_mem _ hi)

/-- **They are no more than there are definitions.** -/
theorem length_le (h : r.Pending reg ids) : ids.length ≤ r.definitions.count :=
  Definitions.length_le_count h.distinct h.declared

end Pending

/-- **A ledger of a resolver.** -/
structure Valid (r : Resolver) (l : Ledger) : Prop where
  pending : r.Pending l.registry l.inProgress
  sound : r.Sound l.registry

/-- A step leads from one ledger to another. -/
structure Step (r : Resolver) (l l' : Ledger) : Prop where
  valid : r.Valid l'
  inProgress : l'.inProgress = l.inProgress
  registry : l.registry <+: l'.registry

theorem valid_empty (r : Resolver) : r.Valid {} := ⟨.nil r [], .nil⟩

theorem Step.refl {l : Ledger} (h : r.Valid l) : r.Step l l := ⟨h, rfl, List.prefix_rfl⟩

theorem Step.trans {l l' l'' : Ledger} (h : r.Step l l') (h' : r.Step l' l'') : r.Step l l'' :=
  ⟨h'.valid, h'.inProgress.trans h.inProgress, h.registry.trans h'.registry⟩

/-- **A computation keeps the ledger valid** from this one on, and what it ends with satisfies `Q` with the registry
then. -/
structure Keeps (r : Resolver) (l : Ledger) (p : Parsing α) (Q : Registry → α → Prop) : Prop where
  step : r.Step l (p.after l)
  result : ∀ a, p.outcome l = .ok a → Q (p.after l).registry a

namespace Keeps

variable {l : Ledger} {Q : Registry → α → Prop} {Q' : Registry → β → Prop}

theorem imp {p : Parsing α} {Q' : Registry → α → Prop} (h : r.Keeps l p Q) (hQ : ∀ reg a, Q reg a → Q' reg a) :
    r.Keeps l p Q' :=
  ⟨h.step, fun a ha => hQ _ _ (h.result a ha)⟩

theorem pure {a : α} (h : r.Valid l) (ha : Q l.registry a) : r.Keeps l (pure a) Q :=
  ⟨.refl h, fun b hb => by cases hb; exact ha⟩

theorem throw (f : Fault) (h : r.Valid l) : r.Keeps l (throw f) Q := ⟨.refl h, fun _ hb => by cases hb⟩

theorem fail (e : SchemaError) (h : r.Valid l) : r.Keeps l (Parsing.fail e) Q := throw _ h

theorem ofExcept {e : Except Fault α} (h : r.Valid l) (he : ∀ a, e = .ok a → Q l.registry a) :
    r.Keeps l (Parsing.ofExcept e) Q := by
  cases e with
  | ok a => exact .pure h (he a rfl)
  | error f => exact .throw f h

theorem record (x : Log.Record) (h : r.Valid l) : r.Keeps l (Parsing.record x) (fun reg _ => reg = l.registry) :=
  ⟨⟨⟨h.pending, h.sound⟩, rfl, List.prefix_rfl⟩, fun _ _ => rfl⟩

theorem get {f : Ledger → Parsing β} (hf : r.Keeps l (f l) Q') : r.Keeps l (MonadState.get >>= f) Q' :=
  ⟨hf.step, hf.result⟩

theorem bind {p : Parsing α} {f : α → Parsing β} (h : r.Keeps l p Q)
    (hf : ∀ l' a, r.Step l l' → Q l'.registry a → r.Keeps l' (f a) Q') : r.Keeps l (p >>= f) Q' := by
  cases hp : p.outcome l with
  | ok a =>
    have hk := hf _ a h.step (h.result a hp)
    refine ⟨by rw [Parsing.after_bind_ok hp]; exact h.step.trans hk.step, fun b hb => ?_⟩
    rw [Parsing.outcome_bind, hp] at hb
    rw [Parsing.after_bind_ok hp]
    exact hk.result b hb
  | error e =>
    refine ⟨by rw [Parsing.after_bind_error hp]; exact h.step, fun b hb => ?_⟩
    rw [Parsing.outcome_bind, hp] at hb
    cases hb

theorem grown {p : Parsing α} (h : r.Keeps l p Q) : r.Keeps l p (fun reg a => l.registry ⊆ reg ∧ Q reg a) :=
  ⟨h.step, fun a ha => ⟨h.step.registry.subset, h.result a ha⟩⟩

theorem within {id : DefId} {p : Parsing α} (h : r.Keeps { l with inProgress := id :: l.inProgress } p Q) :
    r.Keeps l (Parsing.within id p) (fun reg a => Q reg a ∧ ∀ e ∈ reg, e.1.same id = false) := by
  have hpending := h.step.valid.pending
  rw [h.step.inProgress] at hpending
  constructor
  · simp only [Parsing.after_within, h.step.inProgress]
    exact ⟨⟨hpending.tail, h.step.valid.sound⟩, rfl, h.step.registry⟩
  · intro a ha
    rw [Parsing.outcome_within] at ha
    rw [Parsing.after_within]
    exact ⟨h.result a ha, hpending.apart id List.mem_cons_self⟩

theorem register {id : DefId} {n : Node} (h : r.Valid l) (hids : ∀ i ∈ l.inProgress, i.same id = false)
    (hnew : ∀ e ∈ l.registry, e.1.same id = false) (hn : r.Registered l.registry id n) :
    r.Keeps l (modify (fun l => { l with registry := l.registry ++ [(id, n)] })) (fun reg _ => (id, n) ∈ reg) := by
  have ⟨d, _, _, hd, _⟩ := hn
  exact ⟨⟨⟨(h.pending.cons hd hids hnew).registered n, h.sound.snoc hnew hn⟩, rfl, List.prefix_append _ _⟩,
    fun _ _ => List.mem_append_right _ (List.mem_singleton_self _)⟩

end Keeps

/-! ## One step, case by case -/

theorem referenceWith_eq (inner : Resolution) (ref : String) (path : Location) (l : Ledger) :
    r.referenceWith inner ref path l =
      match Pointer.target? ref with
      | none => .error (.schema ⟨.badReference ref .notLocal, path, l.inProgress.head?⟩) l
      | some k => match r.definitions.find? (.key k) with
        | .error f => .error f l
        | .ok none | .ok (some (.bool _)) =>
          .error (.schema ⟨.badReference ref (.undefined (.key k)), path, l.inProgress.head?⟩) l
        | .ok (some _) => inner (.key k) path l := by
  unfold referenceWith
  rw [Parsing.get_bind]
  cases Pointer.target? ref with
  | none => rfl
  | some k =>
    simp only [declared?]
    cases r.definitions.find? (.key k) with
    | error f => rfl
    | ok d =>
      cases d with
      | none => rfl
      | some d => cases d <;> rfl

theorem resolveWith_eq (inner : Resolution) (id : DefId) (path : Location) (l : Ledger) :
    r.resolveWith inner id path l =
      match l.registered? id with
      | some node => .ok node l
      | none =>
        if l.isInProgress id then .error (.schema (.cyclic (ring l.inProgress id) path)) l
        else match r.definitions.find? id with
          | .error f => .error f l
          | .ok none => .error (.schema ⟨.badReference ("#/$defs/" ++ id.text) (.undefined id), path, none⟩) l
          | .ok (some definition) => r.registerWith inner id definition l := by
  unfold resolveWith
  rw [Parsing.get_bind]
  cases l.registered? id with
  | some node => rfl
  | none =>
    cases l.isInProgress id with
    | true => rfl
    | false =>
      simp only [declared?]
      cases r.definitions.find? id with
      | error f => rfl
      | ok d => cases d <;> rfl

/-! ## From resolutions to scripts -/

/-- **A resolution keeps the ledger valid**, and the node it ends with is registered then. -/
def ResolutionKeeps (r : Resolver) (inner : Resolution) : Prop :=
  ∀ id path l, r.Valid l → r.Keeps l (inner id path) (fun reg n => ∃ i, i.same id = true ∧ (i, n) ∈ reg)

theorem ResolutionKeeps.key {inner : Resolution} (h : r.ResolutionKeeps inner) (k : String) (path : Location)
    {l : Ledger} (hl : r.Valid l) : r.Keeps l (inner (.key k) path) (fun reg n => (.key k, n) ∈ reg) :=
  (h (.key k) path l hl).imp fun reg n ⟨i, hi, hn⟩ => by rw [DefId.same_key hi] at hn; exact hn

theorem referenceWith_keeps {inner : Resolution} (h : r.ResolutionKeeps inner) (ref : String) (path : Location)
    {l : Ledger} (hl : r.Valid l) :
    r.Keeps l (r.referenceWith inner ref path) (fun reg _ => r.AnsweredBy reg (.reference ref path)) := by
  unfold referenceWith
  refine .get ?_
  split
  · exact .fail _ hl
  · next k hk =>
    refine .bind (Q := fun _ d => r.definitions.find? (.key k) = .ok d) (.ofExcept hl (fun _ hd => hd)) ?_
    intro l' d hstep hd
    split
    · exact .fail _ hstep.valid
    · exact .fail _ hstep.valid
    · next d hb =>
      refine (h.key k path hstep.valid).imp (fun reg n hn => ⟨k, d, n, hk, hd, ?_, hn⟩)
      cases d with
      | bool b => exact absurd rfl (hb b)
      | _ => rfl

theorem linksWith_reference_keeps {inner : Resolution} (h : r.ResolutionKeeps inner) (ref : String) (path : Location)
    {l : Ledger} (hl : r.Valid l) :
    r.Keeps l ((r.linksWith inner).reference ref path) (fun reg _ => r.AnsweredBy reg (.reference ref path)) :=
  (referenceWith_keeps h ref path hl).bind (fun _ _ hstep ha => .pure hstep.valid ha)

/-- **A script that is run keeps the ledger valid**, and when it ends, the registry has all it asked for. -/
theorem run_keeps {inner : Resolution} (h : r.ResolutionKeeps inner) (s : Script α) : ∀ {l : Ledger}, r.Valid l →
    r.Keeps l (s.run (r.linksWith inner)) (fun reg a => ∃ rs, s.Ends rs a ∧ ∀ q ∈ rs, r.AnsweredBy reg q) := by
  induction s with
  | done a => exact fun hl => .pure hl ⟨[], .done a, fun _ hq => by cases hq⟩
  | fail f => exact fun hl => .throw f hl
  | note x next ih =>
    intro l hl
    refine (Keeps.record x hl).bind (fun l' _ hstep _ => (ih hstep.valid).imp ?_)
    rintro reg a ⟨rs, he, hrs⟩
    exact ⟨rs, .note he, hrs⟩
  | reference ref place next ih =>
    intro l hl
    refine (linksWith_reference_keeps h ref place hl).bind (fun l' _ hstep ha => (ih hstep.valid).grown.imp ?_)
    rintro reg a ⟨hgrown, rs, he, hrs⟩
    exact ⟨_, .reference he, List.forall_mem_cons.2 ⟨ha.mono hgrown, hrs⟩⟩
  | definition key place next ih =>
    intro l hl
    refine Keeps.bind (h.key key place hl) (fun l' n hstep hn => (ih n hstep.valid).grown.imp ?_)
    rintro reg a ⟨hgrown, rs, he, hrs⟩
    exact ⟨_, .definition he, List.forall_mem_cons.2 ⟨hgrown hn, hrs⟩⟩

/-! ## Resolutions -/

theorem not_same_of_registered? {l : Ledger} {id : DefId} (h : l.registered? id = none) :
    ∀ e ∈ l.registry, e.1.same id = false := fun e he => by
  have := List.find?_eq_none.1 (Option.map_eq_none_iff.1 h) e he
  simpa using this

theorem mem_of_registered? {l : Ledger} {id : DefId} {n : Node} (h : l.registered? id = some n) :
    ∃ i, i.same id = true ∧ (i, n) ∈ l.registry := by
  obtain ⟨e, he, rfl⟩ := Option.map_eq_some_iff.1 h
  have hsame := List.find?_some he
  exact ⟨e.1, hsame, List.mem_of_find?_eq_some he⟩

theorem not_same_of_isInProgress {l : Ledger} {id : DefId} (h : l.isInProgress id = false) :
    ∀ i ∈ l.inProgress, i.same id = false := by
  simpa [Ledger.isInProgress] using h

theorem registerWith_keeps {inner : Resolution} (h : r.ResolutionKeeps inner) {id : DefId} {d : Json} {l : Ledger}
    (hl : r.Valid l) (hd : r.definitions.find? id = .ok (some d)) (hids : ∀ i ∈ l.inProgress, i.same id = false)
    (hnew : ∀ e ∈ l.registry, e.1.same id = false) :
    r.Keeps l (r.registerWith inner id d) (fun reg n => (id, n) ∈ reg) := by
  unfold registerWith
  refine (Keeps.record _ hl).bind (fun l₁ _ hstep hreg => ?_)
  rw [← hstep.inProgress] at hids
  rw [← hreg] at hnew
  have hpending := hstep.valid.pending.cons hd hids hnew
  have hrun := run_keeps h (definitionScript id d) (l := { l₁ with inProgress := id :: l₁.inProgress })
    ⟨hpending, hstep.valid.sound⟩
  refine Keeps.bind hrun.within ?_
  rintro l₂ n hstep₂ ⟨⟨rs, hends, hrs⟩, hnew₂⟩
  refine .bind (Q := fun reg node => reg = l₂.registry ∧ r.Registered reg id node) (.ofExcept hstep₂.valid ?_) ?_
  · exact fun node hnode => ⟨rfl, d, rs, n, hd, hends, hrs, hnode⟩
  · rintro l₃ node hstep₃ ⟨hreg₃, hnode⟩
    rw [← hreg₃] at hnew₂
    rw [← hstep₂.inProgress, ← hstep₃.inProgress] at hids
    exact (Keeps.register hstep₃.valid hids hnew₂ hnode).bind (fun _ _ hlast hmem => .pure hlast.valid hmem)

/-- **One definition**, once those that it refers to keep the ledger valid. -/
theorem resolveWith_keeps {inner : Resolution} (h : r.ResolutionKeeps inner) :
    r.ResolutionKeeps (r.resolveWith inner) := by
  intro id path l hl
  refine .get ?_
  split
  · next node hnode => exact .pure hl (mem_of_registered? hnode)
  · next hnone =>
    split
    · exact .fail _ hl
    · next hprog =>
      refine .bind (Q := fun reg d => reg = l.registry ∧ r.definitions.find? id = .ok d)
        (.ofExcept hl (fun d hd => ⟨rfl, hd⟩)) ?_
      rintro l₁ d hstep ⟨hreg, hd⟩
      split
      · exact .fail _ hstep.valid
      · next d =>
        have hids := not_same_of_isInProgress (Bool.eq_false_iff.2 hprog)
        have hnew := not_same_of_registered? hnone
        rw [← hstep.inProgress] at hids
        rw [← hreg] at hnew
        exact (registerWith_keeps h hstep.valid hd hids hnew).imp
          (fun reg n hn => ⟨id, Definitions.same_of_find? hd, hn⟩)

theorem resolveWithin_keeps (r : Resolver) : ∀ depth, r.ResolutionKeeps (r.resolveWithin depth)
  | 0 => resolveWith_keeps (fun _ _ _ hl => .fail _ hl)
  | depth + 1 => resolveWith_keeps (resolveWithin_keeps r depth)

/-! ## The operations of a resolver -/

theorem resolve_keeps (r : Resolver) : r.ResolutionKeeps r.resolve := resolveWithin_keeps r _

theorem parse_keeps (raw name : Json) (isRequired : Bool) (path : Location) {l : Ledger} (hl : r.Valid l) :
    r.Keeps l (r.parse raw name isRequired path) (fun reg n =>
      ∃ rs, (Parser.script true raw name isRequired path).Ends rs n ∧ ∀ q ∈ rs, r.AnsweredBy reg q) :=
  run_keeps r.resolve_keeps _ hl

theorem resolveEntry_keeps (id : DefId) (d : Json) {l : Ledger} (hl : r.Valid l) :
    r.Keeps l (r.resolveEntry id d) (fun reg _ => d.isBool = false → ∃ i n, i.same id = true ∧ (i, n) ∈ reg) := by
  unfold resolveEntry
  split
  · next hb => exact (Keeps.record _ hl).imp (fun _ _ _ hf => by rw [hb] at hf; cases hf)
  · exact (resolve_keeps r id "" l hl).bind (fun l₁ n hstep ⟨i, hi, hn⟩ => .pure hstep.valid fun _ => ⟨i, n, hi, hn⟩)

/-- **After all entries are resolved**, none of them was at fault and each is registered that is not a truth value. -/
theorem resolveEntries_keeps (r : Resolver) : ∀ (es : List (Except Fault (DefId × Json))) {l : Ledger}, r.Valid l →
    r.Keeps l (r.resolveEntries es) (fun reg _ => ∀ e ∈ es, ∃ id d, e = .ok (id, d) ∧
      (d.isBool = false → ∃ i n, i.same id = true ∧ (i, n) ∈ reg))
  | [], _, hl => .pure hl (fun _ he => by cases he)
  | e :: es, l, hl => by
    refine .bind (Q := fun _ p => e = .ok p) (.ofExcept hl (fun _ hp => hp)) ?_
    rintro l₁ ⟨id, d⟩ hstep he
    refine (resolveEntry_keeps id d hstep.valid).bind (fun l₂ _ hstep₂ hentry => ?_)
    refine (resolveEntries_keeps r es hstep₂.valid).grown.imp ?_
    rintro reg _ ⟨hgrown, hes⟩
    refine List.forall_mem_cons.2 ⟨⟨id, d, he, fun hb => ?_⟩, hes⟩
    obtain ⟨i, n, hi, hn⟩ := hentry hb
    exact ⟨i, n, hi, hgrown hn⟩

theorem resolveAll_keeps {l : Ledger} (hl : r.Valid l) :
    r.Keeps l r.resolveAll (fun reg result => result = reg ∧ ∀ e ∈ r.definitions.entries, ∃ id d, e = .ok (id, d) ∧
      (d.isBool = false → ∃ i n, i.same id = true ∧ (i, n) ∈ reg)) :=
  (resolveEntries_keeps r _ hl).bind (fun _ _ hstep h => .get (.pure hstep.valid ⟨rfl, h⟩))

end Resolver
end TrackingPlan
