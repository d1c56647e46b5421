import Mathlib.Data.List.Forall2
import Mathlib.Data.List.Perm.Subperm
import TrackingPlan.Proofs.Proper
/-!
# Equality — values are equal or not, whichever comes first

What equals a list is a list of equal items, and what equals an object is one with equal members, as many and under the
same keys (`equal_arr_iff`, `equal_obj_iff`); numbers and truth values are equal by what they count for
(`equal_iff_number`).  So equality goes over to what equals a value in turn (`equal_trans`), and among proper values it
does not matter which of two comes first (`equal_symm`).
-/
namespace TrackingPlan

/-! ## Lists place by place, and tables key by key -/

section

variable {κ α : Type} [DecidableEq κ] {R : α → α → Prop}

theorem forall₂_symm_of_mem {P : α → Prop} {l u : List α} (hu : ∀ b ∈ u, P b)
    (hR : ∀ a ∈ l, ∀ b, P b → R a b → R b a) (h : List.Forall₂ R l u) : List.Forall₂ R u l := by
  induction h with
  | nil => exact .nil
  | cons hab _ ih =>
    rw [List.forall_mem_cons] at hu hR
    exact .cons (hR.1 _ hu.1 hab) (ih hu.2 hR.2)

theorem forall₂_trans_of_mem {l u s : List α} (hR : ∀ a ∈ l, ∀ b c, R a b → R b c → R a c)
    (h : List.Forall₂ R l u) (h' : List.Forall₂ R u s) : List.Forall₂ R l s := by
  induction h generalizing s with
  | nil => exact h'
  | cons hab _ ih =>
    rw [List.forall_mem_cons] at hR
    cases h' with
    | cons hbc hrest => exact .cons (hR.1 _ _ hab hbc) (ih hR.2 hrest)

namespace Table

/-- **Every entry of the first table has a related one in the second.** -/
def Within (R : α → α → Prop) (t u : List (κ × α)) : Prop := ∀ e ∈ t, ∃ w, u.lookup e.1 = some w ∧ R e.2 w

theorem within_cons_iff {k : κ} {v : α} {t u : List (κ × α)} :
    Within R ((k, v) :: t) u ↔ (∃ w, u.lookup k = some w ∧ R v w) ∧ Within R t u := List.forall_mem_cons

/-- Tables of one length have the same keys if the one's are among the other's. -/
theorem Within.keys_perm {t u : List (κ × α)} (h : Within R t u) (ht : (t.map Prod.fst).Nodup)
    (hlen : t.length = u.length) : (t.map Prod.fst).Perm (u.map Prod.fst) := by
  have hsubset : t.map Prod.fst ⊆ u.map Prod.fst := by
    rintro k hk
    obtain ⟨e, he, rfl⟩ := List.mem_map.1 hk
    obtain ⟨w, hw, -⟩ := h e he
    exact List.mem_map.2 ⟨_, mem_of_lookup hw, rfl⟩
  refine (ht.subperm hsubset).perm_of_length_le ?_
  rw [List.length_map, List.length_map]
  exact Nat.le_of_eq hlen.symm

theorem Within.symm {P : α → Prop} {t u : List (κ × α)} (h : Within R t u) (ht : (t.map Prod.fst).Nodup)
    (hu : (u.map Prod.fst).Nodup) (hlen : t.length = u.length) (hP : ∀ f ∈ u, P f.2)
    (hR : ∀ e ∈ t, ∀ w, P w → R e.2 w → R w e.2) : Within R u t := by
  intro f hf
  obtain ⟨e, he, hkey⟩ := List.mem_map.1 ((h.keys_perm ht hlen).mem_iff.2 (List.mem_map.2 ⟨f, hf, rfl⟩))
  obtain ⟨w, hw, hrel⟩ := h e he
  rw [hkey, lookup_of_mem hu hf, Option.some.injEq] at hw
  subst hw
  exact ⟨e.2, by rw [← hkey, lookup_of_mem ht he], hR e he _ (hP f hf) hrel⟩

theorem Within.trans {t u s : List (κ × α)} (h : Within R t u) (h' : Within R u s)
    (hR : ∀ e ∈ t, ∀ v w, R e.2 v → R v w → R e.2 w) : Within R t s := by
  intro e he
  obtain ⟨v, hv, hev⟩ := h e he
  obtain ⟨w, hw, hvw⟩ := h' _ (mem_of_lookup hv)
  exact ⟨w, hw, hR e he v w hev hvw⟩

end Table
end

/-! ## Values -/

namespace Json

variable {u v w : Json}

/-- A number or a truth value. -/
def IsNumeric : Json → Prop
  | .bool _ | .int _ | .float _ => True
  | _ => False

theorem isNumeric_of_number {q : Number} (h : v.number? = some q) : v.IsNumeric := by
  cases v <;> trivial

theorem equalNumbers_iff : equalNumbers v w = true ↔ ∃ q, v.number? = some q ∧ w.number? = some q := by
  unfold equalNumbers
  cases hv : v.number? with
  | none => simp
  | some x =>
    cases hw : w.number? with
    | none => simp
    | some y =>
      simp only [Option.some.injEq, exists_eq_left', beq_iff_eq]
      exact eq_comm

/-- **Numbers and truth values are equal by what they count for.** -/
theorem equal_iff_number (hv : v.IsNumeric) : v.equal w = true ↔ ∃ q, v.number? = some q ∧ w.number? = some q := by
  rw [← equalNumbers_iff]
  cases v <;> first | exact hv.elim | (cases w <;> rfl)

theorem equal_null_iff : Json.null.equal w = true ↔ w = .null := by
  cases w <;> simp [equal, equalNumbers, number?]

theorem equal_str_iff {s : String} : (Json.str s).equal w = true ↔ w = .str s := by
  cases w with
  | str t =>
    rw [equal, beq_iff_eq, str.injEq]
    exact eq_comm
  | _ => simp [equal, equalNumbers, number?]

theorem equalItems_iff {vs ws : List Json} :
    equalItems vs ws = true ↔ List.Forall₂ (fun v w => v.equal w = true) vs ws := by
  induction vs generalizing ws with
  | nil => cases ws <;> simp [equalItems]
  | cons v vs ih => cases ws <;> simp [equalItems, ih]

theorem equalMembers_iff {ms ns : List (String × Json)} :
    equalMembers ms ns = true ↔ Table.Within (fun v w => v.equal w = true) ms ns := by
  induction ms with
  | nil => simp [equalMembers, Table.Within]
  | cons e ms ih =>
    obtain ⟨k, v⟩ := e
    rw [equalMembers, Bool.and_eq_true, ih, Table.within_cons_iff]
    cases ns.lookup k <;> simp

theorem equal_arr_iff {vs : List Json} :
    (Json.arr vs).equal w = true ↔ ∃ ws, w = .arr ws ∧ List.Forall₂ (fun v w => v.equal w = true) vs ws := by
  cases w <;> simp [equal, equalNumbers, number?, equalItems_iff]

theorem equal_obj_iff {ms : List (String × Json)} :
    (Json.obj ms).equal w = true ↔ ∃ ns, w = .obj ns ∧ ms.length = ns.length ∧
      Table.Within (fun v w => v.equal w = true) ms ns := by
  cases w <;> simp [equal, equalNumbers, number?, equalMembers_iff]

theorem IsNumeric.equal_symm (hv : v.IsNumeric) (h : v.equal w = true) : w.equal v = true := by
  obtain ⟨q, hvq, hwq⟩ := (equal_iff_number hv).1 h
  exact (equal_iff_number (isNumeric_of_number hwq)).2 ⟨q, hwq, hvq⟩

theorem IsNumeric.equal_trans (hu : u.IsNumeric) (h : u.equal v = true) (h' : v.equal w = true) :
    u.equal w = true := by
  obtain ⟨q, huq, hvq⟩ := (equal_iff_number hu).1 h
  obtain ⟨r, hvr, hwr⟩ := (equal_iff_number (isNumeric_of_number hvq)).1 h'
  rw [hvq, Option.some.injEq] at hvr
  exact (equal_iff_number hu).2 ⟨q, huq, hvr ▸ hwr⟩

/-- **Among proper values it does not matter which comes first.** -/
theorem equal_symm (hv : v.Proper) (hw : w.Proper) (h : v.equal w = true) : w.equal v = true := by
  induction hv generalizing w with
  | null => rw [equal_null_iff.1 h]; rfl
  | bool b => exact IsNumeric.equal_symm trivial h
  | int n => exact IsNumeric.equal_symm trivial h
  | float _ => exact IsNumeric.equal_symm trivial h
  | str s => rw [equal_str_iff] at h; rw [h]; exact beq_self_eq_true s
  | arr _ ih =>
    obtain ⟨ws, rfl, hitems⟩ := equal_arr_iff.1 h
    exact equal_arr_iff.2 ⟨_, rfl, forall₂_symm_of_mem (fun b hb => hw.of_mem hb) (fun a ha b hb => ih a ha hb) hitems⟩
  | obj hkeys _ ih =>
    obtain ⟨ns, rfl, hlen, hmembers⟩ := equal_obj_iff.1 h
    cases hw with
    | obj hkeys' hproper =>
      exact equal_obj_iff.2 ⟨_, rfl, hlen.symm,
        hmembers.symm hkeys hkeys' hlen hproper fun e he w hw => ih e he hw⟩

/-- **What equals an equal value is equal.** -/
theorem equal_trans (hu : u.Proper) (h : u.equal v = true) (h' : v.equal w = true) : u.equal w = true := by
  induction hu generalizing v w with
  | null => rw [equal_null_iff] at h; rwa [h] at h'
  | bool b => exact IsNumeric.equal_trans trivial h h'
  | int n => exact IsNumeric.equal_trans trivial h h'
  | float _ => exact IsNumeric.equal_trans trivial h h'
  | str s => rw [equal_str_iff] at h; rwa [h] at h'
  | arr _ ih =>
    obtain ⟨vs, rfl, hitems⟩ := equal_arr_iff.1 h
    obtain ⟨ws, rfl, hitems'⟩ := equal_arr_iff.1 h'
    exact equal_arr_iff.2 ⟨ws, rfl, forall₂_trans_of_mem (fun a ha b c => ih a ha) hitems hitems'⟩
  | obj _ _ ih =>
    obtain ⟨ms, rfl, hlen, hmembers⟩ := equal_obj_iff.1 h
    obtain ⟨ns, rfl, hlen', hmembers'⟩ := equal_obj_iff.1 h'
    exact equal_obj_iff.2 ⟨ns, rfl, hlen.trans hlen', hmembers.trans hmembers' fun e he v w => ih e he⟩

end Json
end TrackingPlan
