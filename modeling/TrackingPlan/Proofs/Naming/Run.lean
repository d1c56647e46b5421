import TrackingPlan.Proofs.Naming.Suffix
/-!
# Run — what a namer keeps through all its calls

In every scope the names held are different for different ids and are just the names taken (`Orderly`); a registration
keeps to this because the name it gives out is free.  An id has the name that its first registration returned
(`run_invariant`), whatever is asked for later.
-/
namespace TrackingPlan
namespace Namer

variable {n : Namer} {id name s : String}

/-! ## One registration -/

theorem register_of_lookup {m : String} (h : n.lookup id s = some m) : n.register id name s = (m, n) := by
  unfold register
  rw [h]

theorem register_of_new (h : n.lookup id s = none) :
    (n.register id name s).1 = freeName n.dialect (n.scope s).taken (wanted n.dialect name) := by
  unfold register
  rw [h]

theorem dialect_register (n : Namer) (id name s : String) : (n.register id name s).2.dialect = n.dialect := by
  unfold register
  cases n.lookup id s <;> rfl

theorem scope_register_self (h : n.lookup id s = none) : (n.register id name s).2.scope s =
    ⟨(n.register id name s).1 :: (n.scope s).taken, Table.set id (n.register id name s).1 (n.scope s).byId⟩ := by
  unfold register
  rw [h]
  simp only [scope, Table.lookup_set_self, Option.getD_some]

theorem scope_register_of_ne {t : String} (ht : t ≠ s) : (n.register id name s).2.scope t = n.scope t := by
  unfold register
  cases n.lookup id s with
  | some m => rfl
  | none => simp only [scope, Table.lookup_set_of_ne ht]

theorem register_not_mem (h : n.lookup id s = none) : (n.register id name s).1 ∉ (n.scope s).taken := by
  rw [register_of_new h]
  exact freeName_not_mem n.dialect _ _

theorem lookup_register_self : (n.register id name s).2.lookup id s = some (n.register id name s).1 := by
  cases h : n.lookup id s with
  | some m => rw [register_of_lookup h]; exact h
  | none => rw [lookup, scope_register_self h, Table.lookup_set_self]

theorem lookup_register_of_ne {i t : String} (h : (i, t) ≠ (id, s)) :
    (n.register id name s).2.lookup i t = n.lookup i t := by
  by_cases ht : t = s
  · subst ht
    have hi : i ≠ id := fun hi => h (by rw [hi])
    cases hl : n.lookup id t with
    | some m => rw [register_of_lookup hl]
    | none => rw [lookup, scope_register_self hl, Table.lookup_set_of_ne hi]; rfl
  · rw [lookup, scope_register_of_ne ht]; rfl

/-- **A name once given out stays.** -/
theorem lookup_register_of_lookup {i t m : String} (h : n.lookup i t = some m) :
    (n.register id name s).2.lookup i t = some m := by
  by_cases he : (i, t) = (id, s)
  · cases he
    rw [register_of_lookup h]
    exact h
  · rw [lookup_register_of_ne he, h]

/-! ## What every registration keeps -/

/-- **The names of each scope** are different for different ids, and just these are taken. -/
structure Orderly (n : Namer) : Prop where
  injective : ∀ s i j m, n.lookup i s = some m → n.lookup j s = some m → i = j
  taken : ∀ s m, m ∈ (n.scope s).taken ↔ ∃ i, n.lookup i s = some m

theorem orderly_fresh (d : Dialect) : Orderly { dialect := d } where
  injective _ _ _ _ h := by cases h
  taken _ _ := ⟨fun h => (by cases h), fun ⟨_, h⟩ => (by cases h)⟩

theorem lookup_register_iff (h : n.lookup id s = none) {i t m : String} :
    (n.register id name s).2.lookup i t = some m ↔
      ((i, t) = (id, s) ∧ m = (n.register id name s).1) ∨ n.lookup i t = some m := by
  by_cases he : (i, t) = (id, s)
  · cases he
    rw [lookup_register_self, h]
    exact ⟨fun hm => .inl ⟨rfl, (Option.some.inj hm).symm⟩, fun hm => by rw [(hm.resolve_right (by simp)).2]⟩
  · rw [lookup_register_of_ne he]
    exact ⟨.inr, fun hm => hm.resolve_left fun hl => he hl.1⟩

theorem Orderly.register (h : n.Orderly) (id name s : String) : (n.register id name s).2.Orderly := by
  cases hl : n.lookup id s with
  | some m => rw [register_of_lookup hl]; exact h
  | none =>
    have hfree : ∀ i, n.lookup i s ≠ some (n.register id name s).1 := fun i hi =>
      register_not_mem hl ((h.taken s _).2 ⟨i, hi⟩)
    constructor
    · intro t i j m hi hj
      rw [lookup_register_iff hl] at hi hj
      rcases hi with ⟨hi, rfl⟩ | hi <;> rcases hj with ⟨hj, hm⟩ | hj
      · cases hi; cases hj; rfl
      · cases hi; exact absurd hj (hfree j)
      · cases hj; subst hm; exact absurd hi (hfree i)
      · exact h.injective t i j m hi hj
    · intro t m
      simp only [lookup_register_iff hl]
      by_cases ht : t = s
      · subst ht
        rw [scope_register_self hl, List.mem_cons, h.taken]
        constructor
        · rintro (rfl | ⟨i, hi⟩)
          · exact ⟨id, .inl ⟨rfl, rfl⟩⟩
          · exact ⟨i, .inr hi⟩
        · rintro ⟨i, ⟨-, rfl⟩ | hi⟩
          · exact .inl rfl
          · exact .inr ⟨i, hi⟩
      · rw [scope_register_of_ne ht, h.taken]
        refine exists_congr fun i => ⟨.inr, fun hi => hi.resolve_left fun he => ?_⟩
        cases he.1
        exact ht rfl

/-! ## Calls -/

/-- **One use of a namer from outside.** -/
inductive Call where
  | register (id name scope : String)
  | create (symbol : Symbol) (id text : String)

/-- The id that a call names, the name it asks for and the scope; nothing for a symbol that the dialect does not have.
-/
def Call.request? (d : Dialect) : Call → Option (String × String × String)
  | .register id name s => some (id, name, s)
  | .create symbol id text => (d.casing symbol).map (fun style => (id, style.convert text, symbol.scope))

/-- The name that a call returns, and the namer after it. -/
def answer (n : Namer) : Call → Option String × Namer
  | .register id name s => (some (n.register id name s).1, (n.register id name s).2)
  | .create symbol id text => match n.create symbol id text with
    | some (name, after) => (some name, after)
    | none => (none, n)

/-- **The namer after a sequence of calls.** -/
def run (n : Namer) (calls : List Call) : Namer := calls.foldl (fun n c => (n.answer c).2) n

/-- Whether a call names this id in this scope. -/
def Call.isFor (d : Dialect) (id s : String) (c : Call) : Bool :=
  match c.request? d with
  | some (i, _, t) => i == id && t == s
  | none => false

/-- **The name that the first call for an id in a scope returns**, if there is one. -/
def firstAnswer (n : Namer) (id s : String) : List Call → Option String
  | [] => none
  | c :: calls => if c.isFor n.dialect id s then (n.answer c).1 else (n.answer c).2.firstAnswer id s calls

theorem answer_eq (n : Namer) (c : Call) :
    n.answer c = match c.request? n.dialect with
      | some (id, name, s) => (some (n.register id name s).1, (n.register id name s).2)
      | none => (none, n) := by
  cases c with
  | register id name s => rfl
  | create symbol id text =>
    simp only [answer, create, Call.request?]
    cases n.dialect.casing symbol <;> rfl

theorem answer_cases (n : Namer) (c : Call) : (c.request? n.dialect = none ∧ n.answer c = (none, n)) ∨
    ∃ id name s, c.request? n.dialect = some (id, name, s) ∧
      n.answer c = (some (n.register id name s).1, (n.register id name s).2) := by
  rw [answer_eq]
  cases c.request? n.dialect with
  | none => exact .inl ⟨rfl, rfl⟩
  | some q => exact .inr ⟨q.1, q.2.1, q.2.2, rfl, rfl⟩

theorem dialect_answer (n : Namer) (c : Call) : (n.answer c).2.dialect = n.dialect := by
  rcases n.answer_cases c with ⟨-, he⟩ | ⟨id, name, s, -, he⟩
  · rw [he]
  · rw [he]; exact n.dialect_register id name s

theorem Orderly.answer (h : n.Orderly) (c : Call) : (n.answer c).2.Orderly := by
  rcases n.answer_cases c with ⟨-, he⟩ | ⟨id, name, s, -, he⟩
  · rw [he]; exact h
  · rw [he]; exact h.register id name s

theorem lookup_answer_of_lookup {i t m : String} (h : n.lookup i t = some m) (c : Call) :
    (n.answer c).2.lookup i t = some m := by
  rcases n.answer_cases c with ⟨-, he⟩ | ⟨id, name, s, -, he⟩
  · rw [he]; exact h
  · rw [he]; exact lookup_register_of_lookup h

theorem Orderly.run : ∀ (calls : List Call) {n : Namer}, n.Orderly → (n.run calls).Orderly
  | [], _, h => h
  | c :: calls, _, h => Orderly.run calls (h.answer c)

theorem lookup_run_of_lookup {i t m : String} : ∀ (calls : List Call) {n : Namer}, n.lookup i t = some m →
    (n.run calls).lookup i t = some m
  | [], _, h => h
  | c :: calls, _, h => lookup_run_of_lookup calls (lookup_answer_of_lookup h c)

/-- **An id that has no name yet gets that of the first call for it.** -/
theorem lookup_run_of_none {id s : String} : ∀ (calls : List Call) {n : Namer}, n.lookup id s = none →
    (n.run calls).lookup id s = n.firstAnswer id s calls
  | [], _, h => h
  | c :: calls, n, h => by
    show ((n.answer c).2.run calls).lookup id s = _
    rw [firstAnswer]
    rcases n.answer_cases c with ⟨hc, he⟩ | ⟨i, name, t, hc, he⟩
    · have hfor : c.isFor n.dialect id s = false := by rw [Call.isFor, hc]
      rw [hfor, he]
      exact lookup_run_of_none calls h
    · have hfor : c.isFor n.dialect id s = (i == id && t == s) := by rw [Call.isFor, hc]
      rw [hfor, he]
      split
      · next hit =>
        obtain ⟨hi, ht⟩ := Bool.and_eq_true_iff.1 hit
        cases eq_of_beq hi; cases eq_of_beq ht
        exact lookup_run_of_lookup calls lookup_register_self
      · next hit =>
        refine lookup_run_of_none calls ((lookup_register_of_ne fun heq => hit ?_).trans h)
        cases heq
        rw [beq_self_eq_true, beq_self_eq_true]
        rfl

/-- **The namer's invariant**, for any dialect and after any calls of a new namer: in every scope different ids have
different names, and the names taken are just those that ids have; an id has the name that the first call for it
returned, or none; and no later calls change a name. -/
theorem run_invariant (d : Dialect) (calls : List Call) :
    (∀ s i j m, (run { dialect := d } calls).lookup i s = some m →
        (run { dialect := d } calls).lookup j s = some m → i = j) ∧
      (∀ s m, m ∈ ((run { dialect := d } calls).scope s).taken ↔
        ∃ i, (run { dialect := d } calls).lookup i s = some m) ∧
      (∀ id s, (run { dialect := d } calls).lookup id s = firstAnswer { dialect := d } id s calls) ∧
      ∀ later id s m, (run { dialect := d } calls).lookup id s = some m →
        (run { dialect := d } (calls ++ later)).lookup id s = some m := by
  have horderly := (orderly_fresh d).run calls
  refine ⟨horderly.injective, horderly.taken, fun id s => lookup_run_of_none calls rfl, fun later id s m h => ?_⟩
  have happend : run { dialect := d } (calls ++ later) = (run { dialect := d } calls).run later := List.foldl_append ..
  rw [happend]
  exact lookup_run_of_lookup later h

end Namer
end TrackingPlan
