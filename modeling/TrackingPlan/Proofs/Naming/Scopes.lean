import TrackingPlan.Proofs.Naming.Run
/-!
# Scopes — a scope knows of no calls but its own

A call that registers elsewhere leaves a scope as it is, and one that registers in it looks at nothing else.  So the
calls of other scopes can all be left out (`Agree.run`), and two runs with the same calls in a scope are the same in it,
whatever else they register (`scope_undisturbed`).
-/
namespace TrackingPlan
namespace Namer

variable {n n' : Namer} {s : String}

/-- Whether a call registers in this scope. -/
def Call.isIn (d : Dialect) (s : String) (c : Call) : Bool :=
  match c.request? d with
  | some (_, _, t) => t == s
  | none => false

/-- **What the calls in a scope return**, in their order. -/
def answersIn (n : Namer) (s : String) : List Call → List (Option String)
  | [] => []
  | c :: calls =>
    if c.isIn n.dialect s then (n.answer c).1 :: (n.answer c).2.answersIn s calls else (n.answer c).2.answersIn s calls

/-! ## Namers that are alike in a scope -/

/-- Two namers of one dialect that hold the same in a scope. -/
structure Agree (s : String) (n n' : Namer) : Prop where
  dialect : n.dialect = n'.dialect
  scope : n.scope s = n'.scope s

theorem Agree.lookup (h : Agree s n n') (id : String) : n.lookup id s = n'.lookup id s := by
  rw [Namer.lookup, Namer.lookup, h.scope]

/-- **A registration in the scope** looks at nothing else. -/
theorem Agree.register (h : Agree s n n') (id name : String) :
    (n.register id name s).1 = (n'.register id name s).1 ∧
      Agree s (n.register id name s).2 (n'.register id name s).2 := by
  cases hl : n.lookup id s with
  | some m =>
    rw [register_of_lookup hl, register_of_lookup ((h.lookup id).symm.trans hl)]
    exact ⟨rfl, h⟩
  | none =>
    have hl' := (h.lookup id).symm.trans hl
    have hname : (n.register id name s).1 = (n'.register id name s).1 := by
      rw [register_of_new hl, register_of_new hl', h.dialect, h.scope]
    refine ⟨hname, ?_, ?_⟩
    · rw [dialect_register, dialect_register, h.dialect]
    · rw [scope_register_self hl, scope_register_self hl', hname, h.scope]

theorem isIn_of_request {d : Dialect} {c : Call} {id name t : String} (h : c.request? d = some (id, name, t)) :
    c.isIn d s = (t == s) := by
  rw [Call.isIn, h]

/-- **A call elsewhere** leaves the scope as it is. -/
theorem agree_of_elsewhere {c : Call} (h : c.isIn n.dialect s = false) : Agree s (n.answer c).2 n := by
  refine ⟨n.dialect_answer c, ?_⟩
  rcases n.answer_cases c with ⟨-, he⟩ | ⟨id, name, t, hc, he⟩
  · rw [he]
  · rw [isIn_of_request hc] at h
    rw [he]
    exact scope_register_of_ne (ne_of_beq_false h).symm

theorem Agree.answer (h : Agree s n n') {c : Call} (hc : c.isIn n.dialect s = true) :
    (n.answer c).1 = (n'.answer c).1 ∧ Agree s (n.answer c).2 (n'.answer c).2 := by
  rw [n.answer_eq, n'.answer_eq, ← h.dialect]
  cases hq : c.request? n.dialect with
  | none => exact ⟨rfl, h⟩
  | some q =>
    obtain ⟨id, name, t⟩ := q
    rw [isIn_of_request hq] at hc
    cases eq_of_beq hc
    obtain ⟨hname, hafter⟩ := h.register id name
    exact ⟨congrArg some hname, hafter⟩

theorem Agree.trans {n'' : Namer} (h : Agree s n n') (h' : Agree s n' n'') : Agree s n n'' :=
  ⟨h.dialect.trans h'.dialect, h.scope.trans h'.scope⟩

/-! ## Runs -/

/-- **The calls of other scopes can all be left out**: by induction on the calls, while the namers agree. -/
theorem Agree.run : ∀ (calls : List Call) {n n' : Namer}, Agree s n n' →
    n.answersIn s calls = n'.answersIn s (calls.filter (·.isIn n.dialect s)) ∧
      Agree s (n.run calls) (n'.run (calls.filter (·.isIn n.dialect s)))
  | [], _, _, h => ⟨rfl, h⟩
  | c :: calls, n, n', h => by
    have hd := n.dialect_answer c
    cases hc : c.isIn n.dialect s with
    | true =>
      obtain ⟨hname, hafter⟩ := h.answer hc
      obtain ⟨hnames, hrun⟩ := Agree.run calls hafter
      rw [hd] at hnames hrun
      rw [List.filter_cons_of_pos hc]
      refine ⟨?_, hrun⟩
      rw [answersIn, answersIn, if_pos hc, if_pos (by rw [← h.dialect]; exact hc), hname, hnames]
    | false =>
      obtain ⟨hnames, hrun⟩ := Agree.run calls ((agree_of_elsewhere hc).trans h)
      rw [hd] at hnames hrun
      rw [List.filter_cons_of_neg (by rw [hc]; exact Bool.false_ne_true)]
      refine ⟨?_, hrun⟩
      rw [answersIn, if_neg (by rw [hc]; exact Bool.false_ne_true), hnames]

/-- **Scopes do not interfere.**  Two sequences of calls of new namers of one dialect that have the same calls in a
scope return the same names for these, and leave every id with the same name in that scope, if any. -/
theorem scope_undisturbed (d : Dialect) (s : String) (calls calls' : List Call)
    (h : calls.filter (·.isIn d s) = calls'.filter (·.isIn d s)) :
    answersIn { dialect := d } s calls = answersIn { dialect := d } s calls' ∧
      ∀ id, (run { dialect := d } calls).lookup id s = (run { dialect := d } calls').lookup id s := by
  have hfresh : Agree s { dialect := d } { dialect := d } := ⟨rfl, rfl⟩
  obtain ⟨hnames, hrun⟩ := hfresh.run calls
  obtain ⟨hnames', hrun'⟩ := hfresh.run calls'
  rw [h] at hnames hrun
  exact ⟨hnames.trans hnames'.symm, fun id => (hrun.lookup id).trans (hrun'.lookup id).symm⟩

/-- Two properties of one type, with its name and properties of other types named in between. -/
def interleaved : List Call :=
  [.create .typeName "a" "order", .create (.propertyName "Order") "a" "user id", .register "a" "userId" "types",
    .register "b" "user-id" "properties/Orders", .create (.propertyName "Order") "b" "userId",
    .register "b" "userId" "default"]

/-- The same properties, without all else. -/
def propertiesOnly : List Call :=
  [.create (.propertyName "Order") "a" "user id", .create (.propertyName "Order") "b" "userId"]

/-- The properties are called the same with or without the other names. -/
theorem scope_undisturbed_interleaved :
    interleaved.filter (·.isIn .typescript "properties/Order") =
        propertiesOnly.filter (·.isIn .typescript "properties/Order") ∧
      answersIn { dialect := .typescript } "properties/Order" interleaved = [some "userId", some "userId_1"] ∧
      (run { dialect := .typescript } interleaved).lookup "b" "properties/Order" = some "userId_1" := by
  have hcalls : interleaved.filter (·.isIn .typescript "properties/Order") =
      propertiesOnly.filter (·.isIn .typescript "properties/Order") := by rfl
  obtain ⟨hnames, hheld⟩ := scope_undisturbed .typescript "properties/Order" interleaved propertiesOnly hcalls
  rw [hnames, hheld "b"]
  exact ⟨hcalls, by decide +kernel, by decide +kernel⟩

end Namer
end TrackingPlan
