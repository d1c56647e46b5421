import TrackingPlan.Proofs.Resolver.Session
/-!
# Calls — what can be done with a resolver, one thing after another

A `Call` is one use of a resolver from outside, and a history is any sequence of them, whether they succeed or fail.
No definition is in progress between two calls, and the registry only grows.
-/
namespace TrackingPlan
namespace Resolver

/-- **One use of a resolver from outside.** -/
inductive Call where
  | resolve (id : DefId) (path : Location)
  | reference (ref : String) (path : Location)
  | all
  /-- Looks at what is registered. -/
  | get (id : DefId)
  | parse (raw name : Json) (isRequired : Bool) (path : Location)

variable (r : Resolver)

/-- The ledger after a call, however the call ends. -/
def perform : Call → Ledger → Ledger
  | .resolve id path => (r.resolve id path).after
  | .reference ref path => (r.resolveReference ref path).after
  | .all => r.resolveAll.after
  | .get _ => id
  | .parse raw name isRequired path => (r.parse raw name isRequired path).after

/-- **A call fails** with this fault, from a ledger. -/
def Fails : Call → Ledger → Fault → Prop
  | .resolve id path, l, f => (r.resolve id path).outcome l = .error f
  | .reference ref path, l, f => (r.resolveReference ref path).outcome l = .error f
  | .all, l, f => r.resolveAll.outcome l = .error f
  | .get _, _, _ => False
  | .parse raw name isRequired path, l, f => (r.parse raw name isRequired path).outcome l = .error f

/-- The ledger after a history from another one. -/
def performFrom (l : Ledger) (calls : List Call) : Ledger := calls.foldl (fun l c => r.perform c l) l

/-- **The ledger after a history**, from a new one. -/
def performAll (calls : List Call) : Ledger := r.performFrom {} calls

theorem performAll_concat (calls : List Call) (c : Call) :
    r.performAll (calls ++ [c]) = r.perform c (r.performAll calls) :=
  List.foldl_append ..

variable {r}

theorem resolveEntry_error {id : DefId} {d : Json} {l : Ledger} {f : Fault}
    (h : (r.resolveEntry id d).outcome l = .error f) : d.isBool = false ∧ (r.resolve id "").outcome l = .error f := by
  unfold resolveEntry at h
  split at h
  · cases h
  · next hb =>
    refine ⟨Bool.eq_false_iff.2 hb, (Parsing.error_of_bind h).resolve_right ?_⟩
    rintro ⟨n, -, hn⟩
    cases hn

theorem after_resolveEntry {id : DefId} {d : Json} (hb : ¬d.isBool) (l : Ledger) :
    (r.resolveEntry id d).after l = (r.resolve id "").after l := by
  rw [resolveEntry, if_neg hb]
  exact Parsing.after_bind_of_still (fun _ _ => rfl) l

theorem after_resolveAll (l : Ledger) :
    r.resolveAll.after l = (r.resolveEntries r.definitions.entries).after l :=
  Parsing.after_bind_of_still (fun _ _ => rfl) l

theorem after_linksWith_reference (inner : Resolution) (ref : String) (path : Location) (l : Ledger) :
    ((r.linksWith inner).reference ref path).after l = (r.referenceWith inner ref path).after l :=
  Parsing.after_bind_of_still (fun _ _ => rfl) l

theorem resolveAll_error {l : Ledger} {f : Fault} (h : r.resolveAll.outcome l = .error f) :
    (r.resolveEntries r.definitions.entries).outcome l = .error f := by
  refine (Parsing.error_of_bind h).resolve_right ?_
  rintro ⟨u, -, hu⟩
  cases hu

theorem perform_step (c : Call) {l : Ledger} (hl : r.Valid l) : r.Step l (r.perform c l) := by
  cases c with
  | resolve id path => exact (resolve_keeps r id path l hl).step
  | reference ref path => exact (referenceWith_keeps r.resolve_keeps ref path hl).step
  | all => exact (resolveAll_keeps hl).step
  | get id => exact .refl hl
  | parse raw name isRequired path => exact (parse_keeps raw name isRequired path hl).step

theorem performFrom_step : ∀ (calls : List Call) {l : Ledger}, r.Valid l → r.Step l (r.performFrom l calls)
  | [], _, hl => .refl hl
  | c :: calls, _, hl =>
    have hstep := perform_step c hl
    hstep.trans (performFrom_step calls hstep.valid)

/-- **After every history** the ledger is valid and no definition is in progress. -/
theorem valid_performAll (r : Resolver) (calls : List Call) :
    r.Valid (r.performAll calls) ∧ (r.performAll calls).inProgress = [] :=
  have hstep := performFrom_step calls r.valid_empty
  ⟨hstep.valid, hstep.inProgress⟩

end Resolver
end TrackingPlan
