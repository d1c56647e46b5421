import TrackingPlan.Proofs.Script.Answer
/-!
# Alike — scripts that differ in places, notes and faults only

Two scripts are `Alike` when they ask the same questions one after the other, go on alike whatever the answers, and end
with related results.  Where they ask from, what they note and the faults they end with may differ.  So when one of
them ends, the other one does, after the same questions (`Alike.ends`), and by answers that are the same everywhere they
come to related results (`Alike.alongside`).
-/
namespace TrackingPlan
namespace Script

variable {α β γ δ : Type}

/-- **Scripts that ask the same**, and end with related results or both fail. -/
inductive Alike (R : α → β → Prop) : Script α → Script β → Prop where
  | done {a b} (h : R a b) : Alike R (.done a) (.done b)
  | fail (f g : Fault) : Alike R (.fail f) (.fail g)
  | note {x y s t} (h : Alike R s t) : Alike R (.note x s) (.note y t)
  | reference {ref p q s t} (h : Alike R s t) : Alike R (.reference ref p s) (.reference ref q t)
  | definition {key p q s t} (h : ∀ n, Alike R (s n) (t n)) : Alike R (.definition key p s) (.definition key q t)

/-- A request without the place it comes from. -/
def Request.unplaced : Request → Request
  | .reference ref _ => .reference ref ""
  | .definition key _ answer => .definition key "" answer

namespace Alike

variable {R : α → β → Prop} {S : γ → δ → Prop}

theorem pure {a : α} {b : β} (h : R a b) : Alike R (Pure.pure a) (Pure.pure b) := .done h

theorem bind {s : Script α} {t : Script β} (h : Alike R s t) {f : α → Script γ} {g : β → Script δ}
    (hf : ∀ a b, R a b → Alike S (f a) (g b)) : Alike S (s >>= f) (t >>= g) := by
  induction h with
  | done h => exact hf _ _ h
  | fail f g => exact .fail f g
  | note _ ih => exact .note ih
  | reference _ ih => exact .reference ih
  | definition _ ih => exact .definition ih

theorem ofExcept_self (e : Except Fault α) : Alike Eq (ofExcept e) (ofExcept e) := by
  cases e with
  | ok a => exact .done rfl
  | error f => exact .fail f f

/-- **When one script ends, so does one that is alike**, after the same questions. -/
theorem ends {s : Script α} {t : Script β} {rs : List Request} {a : α} (hs : s.Ends rs a) (h : Alike R s t) :
    ∃ rs' b, t.Ends rs' b ∧ R a b ∧ rs'.map Request.unplaced = rs.map Request.unplaced := by
  induction hs generalizing t with
  | done a => cases h with | done h => exact ⟨[], _, .done _, h, rfl⟩
  | note _ ih =>
    cases h with
    | note h =>
      obtain ⟨rs', b, ht, hR, hrs⟩ := ih h
      exact ⟨rs', b, .note ht, hR, hrs⟩
  | reference _ ih =>
    cases h with
    | @reference ref p q s t h =>
      obtain ⟨rs', b, ht, hR, hrs⟩ := ih h
      exact ⟨_, b, .reference ht, hR, by rw [List.map_cons, List.map_cons, hrs]; rfl⟩
  | definition _ ih =>
    cases h with
    | definition h =>
      obtain ⟨rs', b, ht, hR, hrs⟩ := ih (h _)
      exact ⟨_, b, .definition ht, hR, by rw [List.map_cons, List.map_cons, hrs]; rfl⟩

/-- **By answers that do not hang on places**, scripts that are alike come to related results or both fail. -/
theorem alongside {reference : String → Location → Except Fault Unit}
    {definition : String → Location → Except Fault Node}
    (hreference : ∀ ref p q, Alongside Eq (reference ref p) (reference ref q))
    (hdefinition : ∀ key p q, Alongside Eq (definition key p) (definition key q)) {s : Script α} {t : Script β}
    (h : Alike R s t) : Alongside R (s.answer reference definition) (t.answer reference definition) := by
  induction h with
  | done h => exact .ok h
  | fail f g => exact .error f g
  | note _ ih => exact ih
  | reference _ ih => exact (hreference _ _ _).bind fun _ _ _ => ih
  | definition _ ih =>
    refine (hdefinition _ _ _).bind ?_
    rintro n _ rfl
    exact ih n

end Alike

end Script
end TrackingPlan
