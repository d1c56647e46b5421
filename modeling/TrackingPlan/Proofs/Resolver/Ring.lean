import Mathlib.Data.List.Chain
import Mathlib.Data.List.Nodup
import TrackingPlan.Proofs.Parser.Faultless
import TrackingPlan.Proofs.Resolver.Calls
import TrackingPlan.Proofs.Resolver.Faults
import TrackingPlan.Proofs.Resolver.Value
/-!
# Ring — a reported ring of definitions is one

What is in progress is a chain: each definition was asked for by a reference in the one outside of it.  So when a
definition in progress is asked for again, what lies between is a ring of references, and the place that is reported is
that of the reference which closes it (`ring_of_inProgress`).  No other step of a resolution makes up such a report
(`value_ring`), whichever operation it comes from.
-/
namespace TrackingPlan

variable {α β : Type}

/-! ## Rings -/

/-- **A ring of what is declared**: each entry refers to the next, and the reference that closes it is at this place. -/
structure IsRing (declared : α → Prop) (refersAt : α → α → Location → Prop) (c : List α) (place : Location) : Prop where
  long : 2 ≤ c.length
  closed : c.head? = c.getLast?
  distinct : c.dropLast.Nodup
  declared : ∀ a ∈ c.dropLast, declared a
  linked : c.IsChain (fun a b => ∃ place, refersAt a b place)
  closing : ∃ a b, c.dropLast.getLast? = some a ∧ c.getLast? = some b ∧ refersAt a b place

theorem exists_next {R : α → α → Prop} {a : α} : ∀ {l : List α}, l.IsChain R → a ∈ l.dropLast → ∃ b, R a b
  | x :: y :: l, h, ha => by
    rw [List.dropLast_cons_cons, List.mem_cons] at ha
    rw [List.isChain_cons_cons] at h
    rcases ha with rfl | ha
    · exact ⟨y, h.1⟩
    · exact exists_next h.2 ha

/-- **A ring of other names** for the same entries, as far as the references are those between them. -/
theorem IsRing.of_map {declared : α → Prop} {refersAt : α → α → Location → Prop} {declared' : β → Prop}
    {refersAt' : β → β → Location → Prop} {g : β → α} {c : List β} {place : Location}
    (h : IsRing declared refersAt (c.map g) place) (hg : g.Injective)
    (hrefers : ∀ i j p, refersAt (g i) (g j) p → refersAt' i j p)
    (hdeclared : ∀ i j p, refersAt' i j p → declared' i) : IsRing declared' refersAt' c place := by
  have hlinked : c.IsChain (fun i j => ∃ p, refersAt' i j p) :=
    ((List.isChain_map _).1 h.linked).imp fun i j ⟨p, hij⟩ => ⟨p, hrefers i j p hij⟩
  refine ⟨?_, ?_, ?_, fun i hi => ?_, hlinked, ?_⟩
  · rw [← List.length_map g]
    exact h.long
  · have hclosed := h.closed
    rw [List.head?_map, List.getLast?_map] at hclosed
    exact Option.map_injective hg hclosed
  · have hdistinct := h.distinct
    rw [← List.map_dropLast] at hdistinct
    exact hdistinct.of_map
  · obtain ⟨j, p, hij⟩ := exists_next hlinked hi
    exact hdeclared i j p hij
  · obtain ⟨a, b, ha, hb, hab⟩ := h.closing
    rw [← List.map_dropLast, List.getLast?_map] at ha
    rw [List.getLast?_map] at hb
    obtain ⟨i, hi, rfl⟩ := Option.map_eq_some_iff.1 ha
    obtain ⟨j, hj, rfl⟩ := Option.map_eq_some_iff.1 hb
    exact ⟨i, j, hi, hj, hrefers i j place hab⟩

/-- **A fault that reports a ring of definitions**, at a place. -/
def Fault.Reports (f : Fault) (ids : List DefId) (place : Location) : Prop :=
  ∃ e, f = .schema e ∧ e.cause = .cycle ids ∧ e.path = place

/-! ## Faults that report no ring -/

variable {ids c : List DefId} {p : Location} {f : Fault}

theorem Fault.Reports.isSchema (h : f.Reports c p) : f.IsSchema := by
  obtain ⟨e, he, -⟩ := h
  exact ⟨e, he⟩

theorem Parser.Site.Blames.reports_none {s : Parser.Site} (h : s.Blames f) : ¬f.Reports c p := by
  intro hf
  have hschema := hf.isSchema
  obtain ⟨e, rfl, he, -⟩ := hf
  cases h with
  | notSchema => cases he
  | unsupported => cases he
  | keyword _ _ _ hfaulty => exact hfaulty.outer.not_schema hschema

namespace Resolver

open TrackingPlan.Parser (Site)

variable {r : Resolver}

/-! ## Rings of definitions -/

/-- **A definition refers to another one**: a subschema of it, at this place, has a reference that names the other. -/
def RefersAt (r : Resolver) (a b : DefId) (place : Location) : Prop :=
  ∃ d s ref k, r.definitions.find? a = .ok (some d) ∧ Site.Reaches true ⟨d, false, Pointer.ofDefinition a.text⟩ s ∧
    s.reference? = some ref ∧ Pointer.target? ref = some k ∧ b = .key k ∧ s.place = place

/-- **A ring of definitions** that is closed by a reference at this place. -/
abbrev Ring (r : Resolver) (c : List DefId) (place : Location) : Prop :=
  IsRing (fun a => ∃ d, r.definitions.find? a = .ok (some d)) r.RefersAt c place

/-- **Definitions inside one another**, the innermost first, each asked for by a reference in the next. -/
def Linked (r : Resolver) (ids : List DefId) : Prop := ids.IsChain (fun b a => ∃ place, r.RefersAt a b place)

theorem split_of_any (q : DefId → Bool) : ∀ {ids : List DefId}, ids.any q = true →
    ∃ y rest, q y = true ∧ ids = ids.takeWhile (!q ·) ++ y :: rest
  | x :: ids, h => by
    cases hx : q x with
    | true => exact ⟨x, ids, hx, by rw [List.takeWhile_cons, hx]; rfl⟩
    | false =>
      rw [List.any_cons, hx, Bool.false_or] at h
      obtain ⟨y, rest, hy, he⟩ := split_of_any q h
      refine ⟨y, rest, hy, ?_⟩
      rw [List.takeWhile_cons, hx]
      exact congrArg (x :: ·) he

/-- **A definition in progress that is asked for again closes a ring.** -/
theorem ring_of_inProgress {id : DefId} (hp : r.Pending [] ids) (hlinked : r.Linked ids)
    (hasked : ∀ a ∈ ids.head?, r.RefersAt a id p) (hin : ids.any (·.same id) = true) : r.Ring (ring ids id) p := by
  obtain ⟨y, rest, hy, hids⟩ := split_of_any (·.same id) hin
  obtain ⟨a, ha⟩ : ∃ a, ids.head? = some a := by
    rw [hids]
    cases ids.takeWhile (!·.same id) with
    | nil => exact ⟨y, rfl⟩
    | cons x _ => exact ⟨x, rfl⟩
  obtain ⟨k, rfl⟩ : ∃ k, id = .key k := by
    obtain ⟨-, -, -, k, -, -, -, -, hk, -⟩ := hasked a ha
    exact ⟨k, hk⟩
  cases DefId.same_key hy
  -- from the innermost definition out to the one asked for
  obtain ⟨segment, hsegment⟩ : ∃ s, s = ids.takeWhile (!·.same (.key k)) ++ [DefId.key k] := ⟨_, rfl⟩
  have hsplit : segment ++ rest = ids := by
    rw [hsegment, List.append_assoc, List.singleton_append]
    exact hids.symm
  have hring : ring ids (.key k) = (DefId.key k :: segment).reverse := by
    rw [hsegment, ring, List.reverse_cons, List.reverse_append]
    rfl
  have hinside : ∀ i ∈ segment, i ∈ ids := fun i hi => hsplit ▸ List.mem_append_left rest hi
  have hlast : (DefId.key k :: segment).getLast? = some (.key k) := by
    rw [hsegment, ← List.cons_append, List.getLast?_concat]
  have hhead : segment.head? = some a := by
    rw [← ha, ← hsplit, hsegment]
    cases ids.takeWhile (!·.same (.key k)) <;> rfl
  rw [hring]
  refine ⟨?_, ?_, ?_, ?_, ?_, ?_⟩
  · rw [List.length_reverse, List.length_cons, hsegment, List.length_append, List.length_singleton]
    omega
  · rw [List.head?_reverse, List.getLast?_reverse, hlast]
    rfl
  · rw [List.dropLast_reverse, List.tail_cons, List.nodup_reverse]
    have hpair : segment.Pairwise (fun a b => a.same b = false) :=
      hp.distinct.sublist (hsplit ▸ List.sublist_append_left _ _)
    refine hpair.imp_of_mem fun {a b} ha _ hab he => ?_
    obtain ⟨d, hd⟩ := hp.declared a (hinside a ha)
    rw [← he, Definitions.same_of_find? hd] at hab
    cases hab
  · intro i hi
    rw [List.dropLast_reverse, List.tail_cons, List.mem_reverse] at hi
    exact hp.declared i (hinside i hi)
  · rw [List.isChain_reverse]
    have hall : r.Linked (.key k :: ids) := List.isChain_cons.2 ⟨fun a ha => ⟨p, hasked a ha⟩, hlinked⟩
    exact hall.prefix ⟨rest, congrArg (DefId.key k :: ·) hsplit⟩
  · refine ⟨a, .key k, ?_, ?_, hasked a ha⟩
    · rw [List.dropLast_reverse, List.tail_cons, List.getLast?_reverse, hhead]
    · rw [List.getLast?_reverse]; rfl

/-! ## Where reports come from -/

section

variable {inner : Valuation} {ref : String}

theorem reports_of_referenceValue (h : r.referenceValue inner ids ref p = .error f) {q : Location}
    (hf : f.Reports c q) : ∃ k, Pointer.target? ref = some k ∧ inner ids (.key k) p = .error f := by
  have hbad : ∀ why inside, f ≠ .schema ⟨.badReference ref why, p, inside⟩ := by
    rintro why inside rfl
    obtain ⟨e, he, hcause, -⟩ := hf
    cases he
    cases hcause
  unfold referenceValue at h
  split at h
  · cases h; exact (hbad _ _ rfl).elim
  · next k hk =>
    split at h
    · next hd => cases h; exact absurd hf.isSchema (Definitions.find?_error hd).not_schema
    · cases h; exact (hbad _ _ rfl).elim
    · cases h; exact (hbad _ _ rfl).elim
    · exact ⟨k, hk, h⟩

/-- **A parse reports a ring only if a request of it does**: for what a reference names, or for a definition at the
root. -/
theorem reports_of_answerWith {raw name : Json} {isRequired : Bool} {path : Location}
    (h : r.answerWith inner ids (Parser.script true raw name isRequired path) = .error f) (hf : f.Reports c p) :
    (∃ t ref k, Site.Reaches true ⟨raw, false, path⟩ t ∧ t.reference? = some ref ∧ Pointer.target? ref = some k ∧
        inner ids (.key k) t.place = .error f) ∨
      ∃ t key, Site.Reaches true ⟨raw, false, path⟩ t ∧ t.place = Pointer.root ∧
        inner ids (.key key) t.place = .error f := by
  rcases Script.answer_error (Parser.script_keeps true raw name isRequired path) h with
    ⟨t, -, hblame⟩ | ⟨ref, place, ⟨t, ht, hasks⟩, hv⟩ | ⟨key, place, n, ⟨t, ht, hasks⟩, hv⟩
  · exact absurd hf hblame.reports_none
  · cases hasks with
    | reference href =>
      have hvalue : r.referenceValue inner ids ref t.place = .error f := by
        cases hr : r.referenceValue inner ids ref t.place with
        | ok n => rw [hr] at hv; cases hv
        | error g => rw [hr] at hv; cases hv; rfl
      obtain ⟨k, hk, hinner⟩ := reports_of_referenceValue hvalue hf
      exact .inl ⟨t, ref, k, ht, href, hk, hinner⟩
  · cases hasks with
    | definition hl => exact .inr ⟨t, key, ht, hl.2, hv⟩

end

/-- What a valuation reports of a definition that is asked for inside others is a ring. -/
def RingsOnly (r : Resolver) (inner : Valuation) (ids : List DefId) : Prop :=
  ∀ id path f c p, (∀ a ∈ ids.head?, r.RefersAt a id path) → inner ids id path = .error f → f.Reports c p → r.Ring c p

theorem valueWith_ringsOnly {inner : Valuation} (hp : r.Pending [] ids) (hlinked : r.Linked ids)
    (hinner : ∀ id, r.Pending [] (id :: ids) → r.Linked (id :: ids) → r.RingsOnly inner (id :: ids)) :
    r.RingsOnly (r.valueWith inner) ids := by
  intro id path f c p hasked h hf
  unfold valueWith at h
  cases hin : ids.any (·.same id) with
  | true =>
    rw [hin] at h
    cases h
    obtain ⟨e, he, hc, rfl⟩ := hf
    cases he
    cases hc
    exact ring_of_inProgress hp hlinked hasked hin
  | false =>
    rw [hin, if_neg Bool.false_ne_true] at h
    split at h
    · next hd => cases h; exact absurd hf.isSchema (Definitions.find?_error hd).not_schema
    · cases h
      obtain ⟨e, he, hc, -⟩ := hf
      cases he
      cases hc
    · next d hd =>
      have hids : ∀ i ∈ ids, i.same id = false := by simpa using hin
      have hp' : r.Pending [] (id :: ids) := hp.cons hd hids (fun _ he => by cases he)
      have hlinked' : r.Linked (id :: ids) := List.isChain_cons.2 ⟨fun a ha => ⟨path, hasked a ha⟩, hlinked⟩
      cases hanswer : r.answerWith inner (id :: ids) (definitionScript id d) with
      | ok n =>
        rw [hanswer] at h
        exact absurd hf.isSchema (withDescription_error h).not_schema
      | error g =>
        rw [hanswer] at h
        cases h
        rcases reports_of_answerWith hanswer hf with ⟨t, ref, k, ht, href, hk, hv⟩ | ⟨t, key, ht, hroot, -⟩
        · refine hinner id hp' hlinked' _ _ _ c p ?_ hv hf
          rintro a ha
          cases ha
          exact ⟨d, t, ref, k, hd, ht, href, hk, rfl, rfl⟩
        · exact absurd hroot ht.place_ne_root

/-- **A definition's value reports rings only**, as long as the depth is enough for what is not in progress. -/
theorem valueWithin_ringsOnly (depth : Nat) : ∀ {ids : List DefId}, r.Pending [] ids → r.Linked ids →
    r.definitions.count ≤ depth + ids.length → r.RingsOnly (r.valueWithin depth) ids := by
  induction depth with
  | zero =>
    intro ids hp hlinked hcount
    refine valueWith_ringsOnly hp hlinked fun id hp' _ => ?_
    have hlen := hp'.length_le
    rw [List.length_cons] at hlen
    omega
  | succ depth ih =>
    intro ids hp hlinked hcount
    refine valueWith_ringsOnly hp hlinked fun id hp' hlinked' => ih hp' hlinked' ?_
    rw [List.length_cons]
    omega

theorem value_ring (r : Resolver) {id : DefId} {path : Location}
    (h : r.valueWithin r.definitions.count [] id path = .error f) (hf : f.Reports c p) : r.Ring c p :=
  valueWithin_ringsOnly _ (.nil r []) .nil (Nat.le_add_right _ _) id path f c p (fun _ ha => by cases ha) h hf

/-! ## What the operations report -/

section

variable {l : Ledger} (hl : r.Valid l) (hnone : l.inProgress = [])

include hl hnone

theorem value_of_resolveWith_error {inner : Resolution} {value : Valuation} (hkeeps : r.ResolutionKeeps inner)
    (hmatches : ∀ id, r.Pending [] [id] → r.Matches inner value [id]) {id : DefId} {path : Location}
    (h : (r.resolveWith inner id path).outcome l = .error f) : r.valueWith value [] id path = .error f := by
  unfold Parsing.outcome at h
  rw [resolveWith_eq] at h
  cases hnode : l.registered? id with
  | some node => rw [hnode] at h; cases h
  | none =>
    have hprog : l.isInProgress id = false := by rw [Ledger.isInProgress, hnone]; rfl
    rw [hnode, hprog] at h
    unfold valueWith
    rw [List.any_nil, if_neg Bool.false_ne_true]
    simp only [Bool.false_eq_true, if_false] at h
    cases hd : r.definitions.find? id with
    | error g => rw [hd] at h; exact h
    | ok d =>
      rw [hd] at h
      cases d with
      | none => exact h
      | some d =>
        have hids : ∀ i ∈ l.inProgress, i.same id = false := by rw [hnone]; exact fun _ hi => by cases hi
        have hnew := not_same_of_registered? hnode
        have hpending := (hl.pending.cons hd hids hnew).mono (List.nil_subset l.registry)
        rw [hnone] at hpending
        have hregister := outcome_registerWith hkeeps (hnone ▸ hmatches id hpending) hl hd hids hnew
        rw [hnone] at hregister
        exact hregister.symm.trans h

/-- **A resolution that fails** does so by the value of the definition, whatever sort of id that has. -/
theorem value_of_resolve_error {id : DefId} {path : Location} (h : (r.resolve id path).outcome l = .error f) :
    r.valueWithin r.definitions.count [] id path = .error f := by
  unfold resolve at h
  cases hcount : r.definitions.count with
  | zero =>
    rw [hcount] at h
    refine value_of_resolveWith_error hl hnone (fun _ _ _ hl => .fail _ hl) (fun id hp => ?_) h
    have hlen := hp.length_le
    rw [hcount, List.length_singleton] at hlen
    omega
  | succ depth =>
    rw [hcount] at h
    refine value_of_resolveWith_error hl hnone (r.resolveWithin_keeps depth) (fun id _ => ?_) h
    exact outcome_resolveWithin r depth (by rw [hcount]; exact Nat.le_refl _)

end

theorem resolveEntries_ring : ∀ {es : List (Except Fault (DefId × Json))}, (∀ e ∈ es, e ∈ r.definitions.entries) →
    ∀ {l : Ledger}, r.Valid l → l.inProgress = [] → (r.resolveEntries es).outcome l = .error f → f.Reports c p →
      r.Ring c p
  | [], _, _, _, _, h, _ => by cases h
  | .error g :: es, hes, l, _, _, h, hf => by
    cases h
    exact absurd hf.isSchema (Definitions.entries_error (hes _ List.mem_cons_self)).not_schema
  | .ok (id, d) :: es, hes, l, hl, hnone, h, hf => by
    have hstep := (resolveEntry_keeps id d hl).step
    replace h : (r.resolveEntry id d >>= fun _ => r.resolveEntries es).outcome l = .error f := h
    rcases Parsing.error_of_bind h with hentry | ⟨_, -, hrest⟩
    · exact r.value_ring (value_of_resolve_error hl hnone (resolveEntry_error hentry).2) hf
    · exact resolveEntries_ring (fun e he => hes e (List.mem_cons_of_mem _ he)) hstep.valid
        (hstep.inProgress.trans hnone) hrest hf

section

variable {l : Ledger} (hl : r.Valid l) (hnone : l.inProgress = [])

include hl hnone

/-- **Resolving all definitions reports rings only.** -/
theorem resolveAll_ring (h : r.resolveAll.outcome l = .error f) (hf : f.Reports c p) : r.Ring c p :=
  resolveEntries_ring (fun _ he => he) hl hnone (resolveAll_error h) hf

/-- **A parse reports rings only.** -/
theorem parse_ring {raw name : Json} {isRequired : Bool} {path : Location}
    (h : (r.parse raw name isRequired path).outcome l = .error f) (hf : f.Reports c p) : r.Ring c p := by
  rw [outcome_parse hl hnone] at h
  rcases reports_of_answerWith h hf with ⟨t, ref, k, -, -, -, hv⟩ | ⟨t, key, -, -, hv⟩
  · exact r.value_ring hv hf
  · exact r.value_ring hv hf

end

end Resolver
end TrackingPlan
