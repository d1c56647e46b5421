import TrackingPlan.Schema.Script
/-!
# Parsing — how a step ends, and the ledger after it

A step ends with an `outcome`, its result or a fault, and leaves the ledger `after` it.  Both go through a sequence
step by step.
-/
namespace TrackingPlan
namespace Parsing

variable {α β : Type}

/-- **The result or fault of a step** from a ledger. -/
def outcome (p : Parsing α) (l : Ledger) : Except Fault α :=
  match p l with
  | .ok a _ => .ok a
  | .error f _ => .error f

/-- **The ledger after a step**, however it ends. -/
def after (p : Parsing α) (l : Ledger) : Ledger :=
  match p l with
  | .ok _ l' | .error _ l' => l'

theorem get_bind (f : Ledger → Parsing β) (l : Ledger) : (MonadState.get >>= f : Parsing β) l = f l l := rfl

theorem outcome_bind (p : Parsing α) (f : α → Parsing β) (l : Ledger) :
    (p >>= f).outcome l = p.outcome l >>= fun a => (f a).outcome (p.after l) := by
  show outcome (EStateM.bind p f) l = _
  unfold outcome after EStateM.bind
  cases p l <;> rfl

theorem ok_of_bind {p : Parsing α} {f : α → Parsing β} {l : Ledger} {b : β} (h : (p >>= f).outcome l = .ok b) :
    ∃ a, p.outcome l = .ok a ∧ (f a).outcome (p.after l) = .ok b := by
  rw [outcome_bind] at h
  cases hp : p.outcome l with
  | ok a => rw [hp] at h; exact ⟨a, rfl, h⟩
  | error e => rw [hp] at h; cases h

theorem error_of_bind {p : Parsing α} {f : α → Parsing β} {l : Ledger} {e : Fault}
    (h : (p >>= f).outcome l = .error e) :
    p.outcome l = .error e ∨ ∃ a, p.outcome l = .ok a ∧ (f a).outcome (p.after l) = .error e := by
  rw [outcome_bind] at h
  cases hp : p.outcome l with
  | ok a => rw [hp] at h; exact .inr ⟨a, rfl, h⟩
  | error g => rw [hp] at h; cases h; exact .inl rfl

theorem after_bind_ok {p : Parsing α} {l : Ledger} {a : α} (h : p.outcome l = .ok a) (f : α → Parsing β) :
    (p >>= f).after l = (f a).after (p.after l) := by
  show after (EStateM.bind p f) l = _
  unfold outcome at h
  unfold after EStateM.bind
  cases hp : p l with
  | ok b l' => rw [hp] at h; cases h; rfl
  | error e l' => rw [hp] at h; cases h

theorem after_bind_error {p : Parsing α} {l : Ledger} {e : Fault} (h : p.outcome l = .error e) (f : α → Parsing β) :
    (p >>= f).after l = p.after l := by
  show after (EStateM.bind p f) l = _
  unfold outcome at h
  unfold after EStateM.bind
  cases hp : p l with
  | ok b l' => rw [hp] at h; cases h
  | error e l' => rfl

theorem after_bind_of_still {p : Parsing α} {f : α → Parsing β} (hf : ∀ a l, (f a).after l = l) (l : Ledger) :
    (p >>= f).after l = p.after l := by
  cases h : p.outcome l with
  | ok a => rw [after_bind_ok h, hf]
  | error e => exact after_bind_error h f

theorem outcome_ofExcept (e : Except Fault α) (l : Ledger) : (ofExcept e).outcome l = e := by
  cases e <;> rfl

theorem outcome_within (id : DefId) (p : Parsing α) (l : Ledger) :
    (within id p).outcome l = p.outcome { l with inProgress := id :: l.inProgress } := by
  unfold outcome within
  cases p { l with inProgress := id :: l.inProgress } <;> rfl

theorem after_within (id : DefId) (p : Parsing α) (l : Ledger) :
    (within id p).after l =
      let l' := p.after { l with inProgress := id :: l.inProgress }
      { l' with inProgress := l'.inProgress.tail } := by
  unfold after within
  cases p { l with inProgress := id :: l.inProgress } <;> rfl

end Parsing
end TrackingPlan
