import TrackingPlan.Build
import TrackingPlan.Proofs.Resolver.Calls
import TrackingPlan.Proofs.Resolver.Value
/-!
# Parts — what a preparation consists of

To prepare a build is to resolve all definitions of the document and then to parse the event.  The log line in between
does not show in how it ends (`outcome_prepareObject`), so a preparation that fails does so by one of two calls of the
document's resolver (`prepare_fails`).
-/
namespace TrackingPlan
namespace Build

variable {raw : Json} {eventName : String} {options : Options} {r : Resolver}

/-- **A preparation is a resolution of all definitions and then a parse of the event.** -/
theorem outcome_prepareObject (hr : Resolver.ofDocument raw eventName options.description = .ok r) :
    (prepareObject raw eventName options).outcome {} = r.resolveAll.outcome {} >>= fun types =>
      ((r.parse raw (.str eventName) false Pointer.root).outcome (r.resolveAll.after {})).map
        (fun schema => ⟨eventName, schema, types, options⟩) := by
  have hstep := (Resolver.resolveAll_keeps r.valid_empty).step
  unfold prepareObject
  rw [Parsing.outcome_bind, hr]
  show (r.resolveAll >>= _).outcome {} = _
  rw [Parsing.outcome_bind]
  refine congrArg (r.resolveAll.outcome {} >>= ·) (funext fun types => ?_)
  -- the log line in between does not matter
  rw [Parsing.outcome_bind]
  show (r.parse raw (.str eventName) false Pointer.root >>= _).outcome _ = _
  have hnoted := (Resolver.Keeps.record ⟨.debug, Log.loggerName logger, "Resolved " ++ Numeral.nat types.length
    ++ " custom type(s) for '" ++ eventName ++ "'"⟩ hstep.valid).step
  rw [Parsing.outcome_bind, Resolver.outcome_parse hstep.valid hstep.inProgress]
  have hparse := Resolver.outcome_parse hnoted.valid (hnoted.inProgress.trans hstep.inProgress)
    raw (.str eventName) false Pointer.root
  refine (congrArg (· >>= _) hparse).trans ?_
  cases r.answerWith _ _ _ <;> rfl

theorem ofDocument_obj (ms : Keywords.Members) :
    ∃ r, Resolver.ofDocument (.obj ms) eventName options.description = .ok r :=
  ⟨_, rfl⟩

/-- **A preparation that fails** was asked for what is no object, or fails by a call of the document's resolver. -/
theorem prepare_fails {f : Fault} (h : (prepare raw eventName options).outcome {} = .error f) :
    (raw.isObject = false ∧ f = .schema ⟨.notEvent raw, Pointer.root, none⟩) ∨
      ∃ r, Resolver.ofDocument raw eventName options.description = .ok r ∧
        (r.Fails .all {} f ∨ r.Fails (.parse raw (.str eventName) false Pointer.root) (r.performAll [.all]) f) := by
  cases raw with
  | obj ms =>
    obtain ⟨r, hr⟩ := @ofDocument_obj eventName options ms
    refine .inr ⟨r, hr, ?_⟩
    change (prepareObject (.obj ms) eventName options).outcome {} = .error f at h
    rw [outcome_prepareObject hr] at h
    cases hall : r.resolveAll.outcome {} with
    | error g => rw [hall] at h; cases h; exact .inl hall
    | ok types =>
      rw [hall] at h
      cases hparse : (r.parse (.obj ms) (.str eventName) false Pointer.root).outcome (r.resolveAll.after {}) with
      | error g =>
        replace h : Except.map _ _ = Except.error f := h
        rw [hparse] at h
        cases h
        exact .inr hparse
      | ok n =>
        replace h : Except.map _ _ = Except.error f := h
        rw [hparse] at h
        cases h
  | _ => cases h; exact .inl ⟨rfl, rfl⟩

end Build
end TrackingPlan
