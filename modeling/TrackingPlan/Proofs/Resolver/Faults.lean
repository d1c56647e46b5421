import TrackingPlan.Proofs.Parser.Keeps
import TrackingPlan.Proofs.Resolver.Value
/-!
# Faults — what a parse fails with

A parse fails with the error of a schema, or with an outer fault: definitions that cannot be looked up, names that are
none and a template that cannot be filled in stop it too, but what they stop it with is no error of a schema.  There is
no other fault (`parse_fault`).
-/
namespace TrackingPlan

/-- **An error of a schema**, unlike the faults of what stands around it. -/
def Fault.IsSchema (f : Fault) : Prop := ∃ e, f = .schema e

/-- **A fault of what stands around a schema.** -/
inductive Fault.Outer : Fault → Prop where
  | notAnObject : Outer .notAnObject
  | notNames : Outer .notNames
  | noEntries : Outer .noEntries
  | unusableId : Outer .unusableId
  | idPastEnd : Outer .idPastEnd
  | templateNotText : Outer .templateNotText
  | template (f : Template.Fault) : Outer (.template f)

variable {f : Fault}

theorem Fault.Outer.not_schema (h : f.Outer) : ¬f.IsSchema := by
  rintro ⟨e, rfl⟩
  cases h

theorem Keywords.required_error {ms : Keywords.Members} (h : Keywords.required ms = .error f) : f = .notNames := by
  have hnames : ∀ v, namesIn v = .error f → f = .notNames := by
    intro v hv
    unfold namesIn at hv
    split at hv
    · split at hv <;> cases hv; rfl
    · cases hv
    · cases hv
    · cases hv; rfl
  unfold required at h
  split at h
  · exact hnames _ h
  · cases h

theorem Parser.Faulty.outer {ms : Keywords.Members} {t : RawType} (h : Faulty ms t f) : f.Outer := by
  cases h with
  | required hr => rw [Keywords.required_error hr]; exact .notNames
  | members => exact .notAnObject

theorem Parser.Site.Blames.schema_or_outer {s : Parser.Site} (h : s.Blames f) : f.IsSchema ∨ f.Outer := by
  cases h with
  | notSchema => exact .inl ⟨_, rfl⟩
  | unsupported => exact .inl ⟨_, rfl⟩
  | keyword _ _ _ hfaulty => exact .inr hfaulty.outer

namespace Definitions

theorem entryFor_error {vs : List Json} {id : DefId} (h : entryFor vs id = .error f) : f.Outer := by
  have hat : ∀ i, entryAt vs i = .error f → f.Outer := by
    intro i hi
    unfold entryAt at hi
    generalize (if i < 0 then i + vs.length else i) = index at hi
    simp only at hi
    split at hi
    · cases hi; exact .idPastEnd
    · split at hi <;> cases hi
      exact .idPastEnd
  cases id with
  | position i => exact hat _ h
  | flag b => exact hat _ h
  | _ => cases h; exact .unusableId

theorem find?_error {ds : Definitions} {id : DefId} (h : ds.find? id = .error f) : f.Outer := by
  cases ds with
  | keyed ms => cases id <;> cases h
  | listed vs =>
    simp only [find?] at h
    split at h
    · cases hv : entryFor vs id with
      | ok d => rw [hv] at h; cases h
      | error g => rw [hv] at h; cases h; exact entryFor_error hv
    · cases h
  | text s =>
    cases id with
    | key k =>
      simp only [find?] at h
      split at h <;> cases h
      exact .unusableId
    | _ => cases h; exact .unusableId
  | other => cases h; exact .noEntries

theorem entries_error {ds : Definitions} (h : .error f ∈ ds.entries) : f.Outer := by
  cases ds with
  | keyed ms =>
    obtain ⟨e, -, he⟩ := List.mem_map.1 h
    cases he
  | listed vs =>
    obtain ⟨v, -, he⟩ := List.mem_map.1 h
    unfold entry at he
    split at he
    · next id _ =>
      cases hv : entryFor vs id with
      | ok d => rw [hv] at he; cases he
      | error g => rw [hv] at he; cases he; exact entryFor_error hv
    · cases he; exact .unusableId
  | text s => cases List.mem_singleton.1 h; exact .unusableId
  | other => cases List.mem_singleton.1 h; exact .noEntries

end Definitions

namespace Resolver

variable {r : Resolver}

theorem withDescription_error {n : Node} (h : r.withDescription n = .error f) : f.Outer := by
  unfold withDescription at h
  split at h
  · cases h
  · cases hd : r.describe with
    | ok d => rw [hd] at h; cases h
    | error g =>
      rw [hd] at h
      cases h
      unfold describe at hd
      split at hd
      · split at hd <;> cases hd
        exact .template _
      · cases hd; exact .templateNotText

/-! ## Values -/

section

variable {inner : Valuation} (hinner : ∀ ids id path f, inner ids id path = .error f → f.IsSchema ∨ f.Outer)

include hinner

theorem referenceValue_fault {ids : List DefId} {ref : String} {path : Location}
    (h : r.referenceValue inner ids ref path = .error f) : f.IsSchema ∨ f.Outer := by
  unfold referenceValue at h
  split at h
  · cases h; exact .inl ⟨_, rfl⟩
  · split at h
    · next hd => cases h; exact .inr (Definitions.find?_error hd)
    · cases h; exact .inl ⟨_, rfl⟩
    · cases h; exact .inl ⟨_, rfl⟩
    · exact hinner _ _ _ _ h

/-- A parse by values fails with a fault of its own, or with one of what it asks for. -/
theorem answerWith_fault {ids : List DefId} {raw name : Json} {isRequired : Bool} {path : Location}
    (h : r.answerWith inner ids (Parser.script true raw name isRequired path) = .error f) :
    f.IsSchema ∨ f.Outer := by
  rcases Script.answer_error (Parser.script_keeps true raw name isRequired path) h with
    ⟨s, -, hblame⟩ | ⟨ref, place, -, hv⟩ | ⟨key, place, -, -, hv⟩
  · exact hblame.schema_or_outer
  · cases hr : r.referenceValue inner ids ref place with
    | ok n => rw [hr] at hv; cases hv
    | error g => rw [hr] at hv; cases hv; exact referenceValue_fault hinner hr
  · exact hinner _ _ _ _ hv

theorem valueWith_fault {ids : List DefId} {id : DefId} {path : Location}
    (h : r.valueWith inner ids id path = .error f) : f.IsSchema ∨ f.Outer := by
  unfold valueWith at h
  split at h
  · cases h; exact .inl ⟨_, rfl⟩
  · split at h
    · next hd => cases h; exact .inr (Definitions.find?_error hd)
    · cases h; exact .inl ⟨_, rfl⟩
    · next d hd =>
      cases hanswer : r.answerWith inner (id :: ids) (definitionScript id d) with
      | ok n => rw [hanswer] at h; exact .inr (withDescription_error h)
      | error g => rw [hanswer] at h; cases h; exact answerWith_fault hinner hanswer

end

theorem valueWithin_fault (r : Resolver) : ∀ (depth : Nat) (ids : List DefId) (id : DefId) (path : Location)
    (f : Fault), r.valueWithin depth ids id path = .error f → f.IsSchema ∨ f.Outer
  | 0, _, _, _, _, h => valueWith_fault (fun _ _ _ _ h => by cases h; exact .inl ⟨_, rfl⟩) h
  | depth + 1, _, _, _, _, h => valueWith_fault (valueWithin_fault r depth) h

/-- **What a parse with a resolver fails with.** -/
theorem parse_fault {l : Ledger} (hl : r.Valid l) (hnone : l.inProgress = []) {raw name : Json} {isRequired : Bool}
    {path : Location} (h : (r.parse raw name isRequired path).outcome l = .error f) : f.IsSchema ∨ f.Outer := by
  rw [outcome_parse hl hnone] at h
  exact answerWith_fault (valueWithin_fault r _) h

end Resolver
end TrackingPlan
