import TrackingPlan.Proofs.Resolver.Session
/-!
# Reached — the references that reach a definition

A reference is read by a pattern that takes no line break into the id, but overlooks one at the very end
(`target?_eq_some_iff`).  So a definition is reached by its pointer exactly when its id has no line break, and then by
one reference besides: the pointer with a line break behind it (`reaches_iff`).
-/
namespace TrackingPlan
namespace Pointer

variable {cs : List Char} {ref id : String}

/-! ## The id that a reference names -/

theorem withoutFinalBreak_cases (cs : List Char) :
    cs = withoutFinalBreak cs ∨ cs = withoutFinalBreak cs ++ ['\n'] := by
  unfold withoutFinalBreak
  split
  · next h => exact .inr (List.dropLast_append_getLast? _ h).symm
  · exact .inl rfl

theorem withoutFinalBreak_of_not_mem (h : '\n' ∉ cs) : withoutFinalBreak cs = cs :=
  if_neg fun hlast => h (List.mem_of_getLast? hlast)

theorem withoutFinalBreak_concat (cs : List Char) : withoutFinalBreak (cs ++ ['\n']) = cs := by
  unfold withoutFinalBreak
  rw [if_pos List.getLast?_concat, List.dropLast_concat]

theorem target?_of_toList {rest : List Char} (h : ref.toList = defsChars ++ rest) :
    target? ref =
      if withoutFinalBreak rest = [] ∨ '\n' ∈ withoutFinalBreak rest then none
      else some (String.ofList (withoutFinalBreak rest)) := by
  unfold target?
  rw [List.isPrefixOf?_eq_some_iff_append_eq.2 h.symm]
  simp only [List.isEmpty_iff, Bool.or_eq_true, List.contains_iff_mem]

theorem toList_ofDefinition (id : String) : (ofDefinition id).toList = defsChars ++ id.toList :=
  String.toList_append

/-- **The references that name an id**: none when it is empty or has a line break; else its pointer, bare or with a
line break behind it. -/
theorem target?_eq_some_iff : target? ref = some id ↔
    id ≠ "" ∧ '\n' ∉ id.toList ∧ (ref = ofDefinition id ∨ ref = ofDefinition id ++ "\n") := by
  constructor
  · intro h
    cases hprefix : defsChars.isPrefixOf? ref.toList with
    | none =>
      rw [target?, hprefix] at h
      cases h
    | some rest =>
      have href := (List.isPrefixOf?_eq_some_iff_append_eq.1 hprefix).symm
      rw [target?_of_toList href] at h
      split at h
      · cases h
      · next hid =>
        obtain ⟨hne, hbreak⟩ := not_or.1 hid
        cases h
        refine ⟨fun he => hne ?_, by rwa [String.toList_ofList], ?_⟩
        · rw [← String.toList_ofList (l := withoutFinalBreak rest), he]; rfl
        · -- the break at the end, if there is one, is all that was set aside
          rcases withoutFinalBreak_cases rest with hrest | hrest
          · refine .inl (String.toList_injective ?_)
            rw [href, toList_ofDefinition, String.toList_ofList, ← hrest]
          · refine .inr (String.toList_injective ?_)
            rw [href, String.toList_append, toList_ofDefinition, String.toList_ofList, List.append_assoc]
            exact congrArg _ hrest
  · rintro ⟨hne, hbreak, hshape⟩
    have hnil : id.toList ≠ [] := fun he => hne (String.toList_eq_nil_iff.1 he)
    have hrest : ∃ rest, ref.toList = defsChars ++ rest ∧ withoutFinalBreak rest = id.toList := by
      rcases hshape with rfl | rfl
      · exact ⟨id.toList, toList_ofDefinition id, withoutFinalBreak_of_not_mem hbreak⟩
      · refine ⟨id.toList ++ ['\n'], ?_, withoutFinalBreak_concat _⟩
        rw [String.toList_append, toList_ofDefinition, List.append_assoc]
        rfl
    obtain ⟨rest, href, hid⟩ := hrest
    rw [target?_of_toList href, hid, if_neg (not_or.2 ⟨hnil, hbreak⟩), String.ofList_toList]

end Pointer

namespace Resolver

variable {r : Resolver} {ref id : String} {d : Json}

/-! ## What a reference resolves to -/

/-- **A reference reaches a definition** when resolving the one is resolving the other: from every place and every
ledger both end with the same node or the same error, and leave the same ledger. -/
def Reaches (r : Resolver) (ref id : String) : Prop := ∀ path, r.resolveReference ref path = r.resolve (.key id) path

/-- A definition that a reference may ask for: it is declared, and not as a truth value. -/
def Offers (r : Resolver) (id : String) : Prop := ∃ d, r.definitions.find? (.key id) = .ok (some d) ∧ d.isBool = false

theorem resolveReference_of_target (hid : Pointer.target? ref = some id) (h : r.Offers id) (path : Location) :
    r.resolveReference ref path = r.resolve (.key id) path := by
  obtain ⟨d, hd, hb⟩ := h
  funext l
  unfold resolveReference
  rw [referenceWith_eq, hid]
  simp only [hd]
  cases d with
  | bool => cases hb
  | _ => rfl

theorem resolveWithin_eq_resolveWith (r : Resolver) (depth : Nat) :
    ∃ inner, r.resolveWithin depth = r.resolveWith inner := by
  cases depth with
  | zero => exact ⟨_, rfl⟩
  | succ depth => exact ⟨r.resolveWithin depth, rfl⟩

/-- A reference that resolves, from any ledger, names a definition that is offered. -/
theorem target_of_resolveReference {path : Location} {l m : Ledger} {n : Node}
    (h : r.resolveReference ref path l = .ok n m) : ∃ k, Pointer.target? ref = some k ∧ r.Offers k := by
  unfold resolveReference at h
  rw [referenceWith_eq] at h
  cases hk : Pointer.target? ref with
  | none => rw [hk] at h; cases h
  | some k =>
    refine ⟨k, rfl, ?_⟩
    rw [hk] at h
    simp only at h
    split at h
    · cases h
    · cases h
    · cases h
    · next d hb hd =>
      refine ⟨d, hd, ?_⟩
      cases d with
      | bool b => exact absurd rfl (hb b)
      | _ => rfl

/-! ## The references that reach a definition -/

/-- A ledger that tells two ids apart: one is registered, and the other in progress. -/
def between (registered inProgress : String) : Ledger :=
  { registry := [(.key registered, .anything)], inProgress := [.key inProgress] }

theorem resolve_registered (r : Resolver) (path : Location) (id k : String) :
    r.resolve (.key id) path (between id k) = .ok .anything (between id k) := by
  obtain ⟨inner, hinner⟩ := r.resolveWithin_eq_resolveWith r.definitions.count
  have hfound : (between id k).registered? (.key id) = some .anything := by
    simp [between, Ledger.registered?, DefId.same_self]
  rw [resolve, hinner, resolveWith_eq, hfound]

theorem resolve_inProgress (r : Resolver) (path : Location) {id k : String} (h : k ≠ id) :
    ∃ f, r.resolve (.key k) path (between id k) = .error f (between id k) := by
  obtain ⟨inner, hinner⟩ := r.resolveWithin_eq_resolveWith r.definitions.count
  have hother : (between id k).registered? (.key k) = none := by
    simp [between, Ledger.registered?, DefId.key_same_key, h.symm]
  have hprogress : (between id k).isInProgress (.key k) = true := by
    simp [between, Ledger.isInProgress, DefId.same_self]
  refine ⟨.schema (.cyclic (ring [.key k] (.key k)) path), ?_⟩
  rw [resolve, hinner, resolveWith_eq, hother]
  simp only [hprogress, if_true]
  rfl

/-- **Which references reach a definition.**  The definition has to be offered, under an id that is not empty and has no
line break; the references are its pointer, and its pointer with a line break behind it. -/
theorem reference_reaches_iff (r : Resolver) (ref id : String) : r.Reaches ref id ↔
    r.Offers id ∧ id ≠ "" ∧ '\n' ∉ id.toList ∧
      (ref = Pointer.ofDefinition id ∨ ref = Pointer.ofDefinition id ++ "\n") := by
  rw [← Pointer.target?_eq_some_iff]
  constructor
  · intro h
    have hboth : ∀ k, r.resolveReference ref "" (between id k) = .ok .anything (between id k) := fun k =>
      (congrFun (h "") _).trans (r.resolve_registered "" id k)
    obtain ⟨k, hk, hoffers⟩ := target_of_resolveReference (hboth id)
    by_cases he : k = id
    · subst he
      exact ⟨hoffers, hk⟩
    · -- the reference resolves as `k` does, and fails where `k` is in progress
      obtain ⟨f, hf⟩ := r.resolve_inProgress "" he
      have hok := hboth k
      rw [resolveReference_of_target hk hoffers, hf] at hok
      cases hok
  · rintro ⟨hoffers, hid⟩ path
    exact resolveReference_of_target hid hoffers path

/-- The resolver of a document with two definitions; one has a line break in its id. -/
def broken : Resolver :=
  { definitions := .keyed [("a\nb", .obj [("type", .str "string")]), ("a", .obj [("type", .str "string")])] }

/-- **A pointer is refused and another one is doubled**: the definition `a\nb` resolves by its id and not by its
pointer, and `a` is reached by two references. -/
theorem pointer_refused :
    ((broken.resolve (.key "a\nb") "").outcome {}).isOk ∧
    (broken.resolveReference "#/$defs/a\nb" "").outcome {} =
      .error (.schema ⟨.badReference "#/$defs/a\nb" .notLocal, "", none⟩) ∧
    broken.Reaches "#/$defs/a" "a" ∧ broken.Reaches "#/$defs/a\n" "a" ∧ "#/$defs/a" ≠ "#/$defs/a\n" := by
  have hoffers : broken.Offers "a" := ⟨.obj [("type", .str "string")], by rfl, rfl⟩
  refine ⟨?_, ?_, ?_, ?_, by decide⟩
  · rfl
  · rfl
  · exact resolveReference_of_target (by decide) hoffers
  · exact resolveReference_of_target (by decide) hoffers

end Resolver
end TrackingPlan
