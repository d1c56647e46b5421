import Mathlib.Data.List.Basic
/-!
# Separated — items written one behind another

Where no item's text begins another's, items with commas between them can be told from the whole up to the character
that closes it (`further_injective`); a mark that no text has does for its end (`append_mark_inj`).
-/
namespace TrackingPlan

variable {α : Type} {P : α → Prop} {f : α → List Char} {close : Char}

/-- What stands before the first mark can be told from the whole. -/
theorem append_mark_inj {mark : Char} {r s : List Char} : ∀ {cs ds : List Char}, mark ∉ cs → mark ∉ ds →
    cs ++ mark :: r = ds ++ mark :: s → cs = ds ∧ r = s
  | [], [], _, _, h => ⟨rfl, (List.cons.inj h).2⟩
  | [], d :: ds, _, hds, h => absurd (by rw [(List.cons.inj h).1]; exact List.mem_cons_self) hds
  | c :: cs, [], hcs, _, h => absurd (by rw [← (List.cons.inj h).1]; exact List.mem_cons_self) hcs
  | c :: cs, d :: ds, hcs, hds, h => by
    obtain ⟨hcd, hrest⟩ := List.cons.inj h
    obtain ⟨hds', hrs⟩ := append_mark_inj (List.not_mem_of_not_mem_cons hcs) (List.not_mem_of_not_mem_cons hds) hrest
    exact ⟨by rw [hcd, hds'], hrs⟩

/-- **No item's text begins another's**: an item and what follows it can be told from the two together. -/
def Delimited (P : α → Prop) (f : α → List Char) : Prop :=
  ∀ {a b : α} {r s : List Char}, P a → P b → f a ++ r = f b ++ s → a = b ∧ r = s

/-- The items behind the first one, up to the end. -/
def further (f : α → List Char) (close : Char) : List α → List Char
  | [] => [close]
  | a :: as => ',' :: ' ' :: (f a ++ further f close as)

theorem intercalate_eq_further (f : α → List Char) (close : Char) (a : α) (as : List α) :
    List.intercalate [',', ' '] ((a :: as).map f) ++ [close] = f a ++ further f close as := by
  induction as generalizing a with
  | nil => simp [further]
  | cons b bs ih =>
    have hrest := ih b
    simp only [List.map_cons] at hrest ⊢
    rw [List.intercalate_cons_cons, List.append_assoc, List.append_assoc, hrest]
    rfl

theorem further_injective (hf : Delimited P f) (hclose : close ≠ ',') : ∀ {as bs : List α}, (∀ a ∈ as, P a) →
    (∀ b ∈ bs, P b) → further f close as = further f close bs → as = bs
  | [], [], _, _, _ => rfl
  | [], _ :: _, _, _, h => absurd (List.cons.inj h).1 hclose
  | _ :: _, [], _, _, h => absurd (List.cons.inj h).1.symm hclose
  | a :: as, b :: bs, has, hbs, h => by
    simp only [further, List.cons.injEq, true_and] at h
    obtain ⟨hab, hrest⟩ := hf (has a List.mem_cons_self) (hbs b List.mem_cons_self) h
    rw [hab, further_injective hf hclose (fun c hc => has c (List.mem_cons_of_mem _ hc))
      (fun c hc => hbs c (List.mem_cons_of_mem _ hc)) hrest]

end TrackingPlan
