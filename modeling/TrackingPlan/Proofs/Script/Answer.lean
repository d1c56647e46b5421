import Mathlib.Data.List.Perm.Basic
import TrackingPlan.Proofs.Script
/-!
# Answer — what a script ends with by given answers

When there is one answer to each question, a script comes to one result or fault (`answer`), and to a result just when
it ends so after requests that are answered so (`answer_eq_ok_iff`).  Two scripts are compared by their answers: they
stand `Alongside` each other when both fail, whatever the faults, or both end, with related results.
-/
namespace TrackingPlan

variable {α β γ δ : Type}

namespace Script

/-- **What a script ends with** by answers that need no ledger. -/
def answer (reference : String → Location → Except Fault Unit) (definition : String → Location → Except Fault Node) :
    Script α → Except Fault α
  | .done a => .ok a
  | .fail f => .error f
  | .note _ next => next.answer reference definition
  | .reference ref place next => do
    reference ref place
    next.answer reference definition
  | .definition key place next => do
    let node ← definition key place
    (next node).answer reference definition

variable {reference : String → Location → Except Fault Unit} {definition : String → Location → Except Fault Node}

/-- The request is answered so. -/
def Answered (reference : String → Location → Except Fault Unit) (definition : String → Location → Except Fault Node) :
    Request → Prop
  | .reference ref place => reference ref place = .ok ()
  | .definition key place n => definition key place = .ok n

theorem answer_of_ends {s : Script α} {rs : List Request} {a : α} (h : s.Ends rs a) :
    (∀ q ∈ rs, Answered reference definition q) → s.answer reference definition = .ok a := by
  induction h with
  | done a => exact fun _ => rfl
  | note _ ih => exact ih
  | @reference ref place next rs a _ ih =>
    intro hrs
    obtain ⟨href, hrest⟩ := List.forall_mem_cons.1 hrs
    rw [answer, show reference ref place = .ok () from href]
    exact ih hrest
  | @definition key place next n rs a _ ih =>
    intro hrs
    obtain ⟨hn, hrest⟩ := List.forall_mem_cons.1 hrs
    rw [answer, show definition key place = .ok n from hn]
    exact ih hrest

theorem ends_of_answer (s : Script α) : ∀ {a : α}, s.answer reference definition = .ok a →
    ∃ rs, s.Ends rs a ∧ ∀ q ∈ rs, Answered reference definition q := by
  induction s with
  | done a => intro b h; cases h; exact ⟨[], .done a, fun _ hq => by cases hq⟩
  | fail f => intro b h; cases h
  | note x next ih =>
    intro b h
    obtain ⟨rs, he, hrs⟩ := ih h
    exact ⟨rs, .note he, hrs⟩
  | reference ref place next ih =>
    intro b h
    rw [answer] at h
    cases hr : reference ref place with
    | error f => rw [hr] at h; cases h
    | ok u =>
      rw [hr] at h
      obtain ⟨rs, he, hrs⟩ := ih h
      exact ⟨_, .reference he, List.forall_mem_cons.2 ⟨hr, hrs⟩⟩
  | definition key place next ih =>
    intro b h
    rw [answer] at h
    cases hd : definition key place with
    | error f => rw [hd] at h; cases h
    | ok n =>
      rw [hd] at h
      obtain ⟨rs, he, hrs⟩ := ih n h
      exact ⟨_, .definition he, List.forall_mem_cons.2 ⟨hd, hrs⟩⟩

/-- **A script comes to a result** just when it ends with it after requests that are answered so. -/
theorem answer_eq_ok_iff {s : Script α} {a : α} : s.answer reference definition = .ok a ↔
    ∃ rs, s.Ends rs a ∧ ∀ q ∈ rs, Answered reference definition q :=
  ⟨ends_of_answer s, fun ⟨_, he, hrs⟩ => answer_of_ends he hrs⟩

theorem answer_ok {A : Request → Prop} {F : Fault → Prop} (hF : ∀ f, ¬F f)
    (href : ∀ ref place, A (.reference ref place) → reference ref place = .ok ())
    (hdef : ∀ key place n, A (.definition key place n) → ∃ n, definition key place = .ok n) {s : Script α} :
    ∀ {Q : List Request → α → Prop}, Spec A F s Q → ∃ a, s.answer reference definition = .ok a := by
  induction s with
  | done a => exact fun _ => ⟨a, rfl⟩
  | fail f => exact fun h => absurd h (hF f)
  | note _ next ih => exact fun h => ih h
  | reference ref place next ih =>
    intro Q h
    obtain ⟨a, ha⟩ := ih h.2
    exact ⟨a, by rw [answer, href ref place h.1]; exact ha⟩
  | definition key place next ih =>
    intro Q h
    obtain ⟨n, hn⟩ := hdef key place .anything (h .anything).1
    obtain ⟨a, ha⟩ := ih n (h n).2
    exact ⟨a, by rw [answer, hn]; exact ha⟩

/-- A script that fails does so by a fault of its own, or because a request of it does. -/
theorem answer_error {A : Request → Prop} {F : Fault → Prop} {f : Fault} {s : Script α} :
    ∀ {Q : List Request → α → Prop}, Spec A F s Q → s.answer reference definition = .error f →
      F f ∨ (∃ ref place, A (.reference ref place) ∧ reference ref place = .error f) ∨
        ∃ key place n, A (.definition key place n) ∧ definition key place = .error f := by
  induction s with
  | done a => intro Q _ h; cases h
  | fail g => intro Q hs h; cases h; exact .inl hs
  | note _ next ih => exact fun hs h => ih hs h
  | reference ref place next ih =>
    intro Q hs h
    rw [answer] at h
    cases hr : reference ref place with
    | error g => rw [hr] at h; cases h; exact .inr (.inl ⟨ref, place, hs.1, hr⟩)
    | ok u => rw [hr] at h; exact ih hs.2 h
  | definition key place next ih =>
    intro Q hs h
    rw [answer] at h
    cases hd : definition key place with
    | error g => rw [hd] at h; cases h; exact .inr (.inr ⟨key, place, .anything, (hs .anything).1, hd⟩)
    | ok n => rw [hd] at h; exact ih n (hs n).2 h

theorem answer_ofExcept (e : Except Fault α) : (ofExcept e).answer reference definition = e := by
  cases e <;> rfl

theorem answer_bind (s : Script α) (f : α → Script β) : (s >>= f).answer reference definition =
    s.answer reference definition >>= fun a => (f a).answer reference definition := by
  induction s with
  | done a => rfl
  | fail e => rfl
  | note x next ih => exact ih
  | reference ref place next ih =>
    show reference ref place >>= (fun _ => (next >>= f).answer reference definition) =
      (reference ref place >>= fun _ => next.answer reference definition) >>= _
    rw [ih]
    cases reference ref place <;> rfl
  | definition key place next ih =>
    show definition key place >>= (fun n => (next n >>= f).answer reference definition) =
      (definition key place >>= fun n => (next n).answer reference definition) >>= _
    cases definition key place with
    | error e => rfl
    | ok n => exact ih n

end Script

/-! ## Results side by side -/

/-- **Both fail, or both end**, with related results. -/
inductive Alongside (R : α → β → Prop) : Except Fault α → Except Fault β → Prop where
  | ok {a b} (h : R a b) : Alongside R (.ok a) (.ok b)
  | error (f g : Fault) : Alongside R (.error f) (.error g)

namespace Alongside

variable {R : α → β → Prop} {S : γ → δ → Prop} {x : Except Fault α} {y : Except Fault β}

theorem refl {R : α → α → Prop} (hR : ∀ a, R a a) (x : Except Fault α) : Alongside R x x := by
  cases x with
  | ok a => exact .ok (hR a)
  | error f => exact .error f f

theorem comp {S : β → γ → Prop} {z : Except Fault γ} (h : Alongside R x y) (h' : Alongside S y z) :
    Alongside (Relation.Comp R S) x z := by
  cases h with
  | ok h => cases h' with | ok h' => exact .ok ⟨_, h, h'⟩
  | error f g => cases h' with | error _ g' => exact .error f g'

theorem imp {S : α → β → Prop} (h : Alongside R x y) (hS : ∀ a b, R a b → S a b) : Alongside S x y := by
  cases h with
  | ok h => exact .ok (hS _ _ h)
  | error f g => exact .error f g

theorem trans {R : α → α → Prop} (hR : ∀ {a b c}, R a b → R b c → R a c) {x y z : Except Fault α} (h : Alongside R x y)
    (h' : Alongside R y z) : Alongside R x z :=
  (h.comp h').imp fun _ _ ⟨_, h, h'⟩ => hR h h'

theorem bind (h : Alongside R x y) {f : α → Except Fault γ} {g : β → Except Fault δ}
    (hf : ∀ a b, R a b → Alongside S (f a) (g b)) : Alongside S (x >>= f) (y >>= g) := by
  cases h with
  | ok h => exact hf _ _ h
  | error f g => exact .error f g

theorem map {f : α → γ} {g : β → δ} (h : Alongside R x y) (hf : ∀ a b, R a b → S (f a) (g b)) :
    Alongside S (x.map f) (y.map g) := by
  cases h with
  | ok h => exact .ok (hf _ _ h)
  | error f g => exact .error f g

theorem succeeds_iff (h : Alongside R x y) : (∃ a, x = .ok a) ↔ ∃ b, y = .ok b := by
  cases h with
  | ok h => exact ⟨fun _ => ⟨_, rfl⟩, fun _ => ⟨_, rfl⟩⟩
  | error f g => exact ⟨fun ⟨_, h⟩ => (by cases h), fun ⟨_, h⟩ => (by cases h)⟩

theorem related (h : Alongside R x y) {a : α} {b : β} (hx : x = .ok a) (hy : y = .ok b) : R a b := by
  subst hx
  cases h
  cases hy
  assumption

theorem of_succeeds (h : (∃ a, x = .ok a) ↔ ∃ b, y = .ok b) (hR : ∀ a b, x = .ok a → y = .ok b → R a b) :
    Alongside R x y := by
  cases x with
  | ok a =>
    obtain ⟨b, rfl⟩ := h.1 ⟨a, rfl⟩
    exact .ok (hR a b rfl rfl)
  | error f =>
    cases y with
    | ok b => obtain ⟨a, ha⟩ := h.2 ⟨b, rfl⟩; cases ha
    | error g => exact .error f g

theorem of_ok_iff {y : Except Fault α} (h : ∀ a, x = .ok a ↔ y = .ok a) : Alongside Eq x y := by
  refine .of_succeeds (exists_congr h) fun a b hx hy => ?_
  rw [(h a).1 hx] at hy
  exact Except.ok.inj hy

theorem and_left {P : α → Prop} (h : Alongside R x y) (hx : ∀ a, x = .ok a → P a) :
    Alongside (fun a b => P a ∧ R a b) x y := by
  cases h with
  | ok h => exact .ok ⟨hx _ rfl, h⟩
  | error f g => exact .error f g

/-- Two results in front of others, in either order. -/
theorem cons_swap (x y : Except Fault α) (z : Except Fault (List α)) :
    Alongside List.Perm (y >>= fun b => (x >>= fun a => z.map (a :: ·)).map (b :: ·))
      (x >>= fun a => (y >>= fun b => z.map (b :: ·)).map (a :: ·)) := by
  cases x with
  | error f => cases y <;> exact .error _ _
  | ok a =>
    cases y with
    | error f => exact .error _ _
    | ok b =>
      cases z with
      | error f => exact .error _ _
      | ok as => exact .ok (.swap _ _ as)

/-- **Results of a list in another order**, each by itself, are the same results in another order. -/
theorem mapM_perm (f : α → Except Fault β) {as bs : List α} (h : as.Perm bs) :
    Alongside List.Perm (as.mapM f) (bs.mapM f) := by
  have hcons : ∀ a as, (a :: as).mapM f = f a >>= fun b => (as.mapM f).map (b :: ·) := fun a as => by
    rw [List.mapM_cons]
    cases as.mapM f <;> rfl
  induction h with
  | nil => exact .refl .refl _
  | cons a _ ih =>
    rw [hcons, hcons]
    refine .bind (.refl (R := Eq) (fun _ => rfl) _) ?_
    rintro b _ rfl
    exact ih.map fun _ _ hbs => hbs.cons b
  | swap a a' as =>
    rw [hcons, hcons, hcons, hcons]
    exact cons_swap ..
  | trans _ _ ih ih' => exact ih.trans (fun h h' => h.trans h') ih'

end Alongside

namespace Script

variable {reference : String → Location → Except Fault Unit} {definition : String → Location → Except Fault Node}

/-- Scripts one after the other, by the same answers. -/
theorem alongside_bind {R : α → β → Prop} {S : γ → δ → Prop} {s : Script α} {t : Script β} {f : α → Script γ}
    {g : β → Script δ} (h : Alongside R (s.answer reference definition) (t.answer reference definition))
    (hf : ∀ a b, R a b → Alongside S ((f a).answer reference definition) ((g b).answer reference definition)) :
    Alongside S ((s >>= f).answer reference definition) ((t >>= g).answer reference definition) := by
  rw [answer_bind, answer_bind]
  exact h.bind hf

theorem alongside_bind_self {S : γ → δ → Prop} (s : Script α) {f : α → Script γ} {g : α → Script δ}
    (hf : ∀ a, Alongside S ((f a).answer reference definition) ((g a).answer reference definition)) :
    Alongside S ((s >>= f).answer reference definition) ((s >>= g).answer reference definition) := by
  refine alongside_bind (.refl (R := Eq) (fun _ => rfl) _) ?_
  rintro a _ rfl
  exact hf a

end Script
end TrackingPlan
