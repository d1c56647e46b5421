import TrackingPlan.Event.Call
import TrackingPlan.Proofs.Node
/-!
# Section — what a section has of its event

A section is a node of its own, but all that lies in it lies in the event (`properties_takenFrom`,
`traits_takenFrom`), and what it refers to the event refers to.
-/
namespace TrackingPlan
namespace Event

/-- **An object put together from another node**: itself aside, all that lies in it lies in the other one, and what it
refers to the other one names. -/
structure TakenFrom (event n : Node) : Prop where
  isObject : n.isObject = true
  contains : ∀ m, n.Contains m → m = n ∨ event.Contains m
  refName : ∀ id, n.info.refName = some id → event.Names id

theorem TakenFrom.names {event n : Node} (h : TakenFrom event n) {id : String} (hid : n.Names id) : event.Names id := by
  obtain ⟨m, hm, hr⟩ := hid
  rcases h.contains m hm with rfl | hm
  · exact h.refName id hr
  · exact ⟨m, hm, hr⟩

theorem contains_of_objectProperty? {n m : Node} {name : String} (h : objectProperty? n name = some m) :
    n.Contains m := by
  obtain ⟨hp, -⟩ := Option.filter_eq_some_iff.1 h
  cases n with
  | object i ps ds => exact .single (.property (List.mem_of_find?_eq_some hp))
  | _ => cases hp

/-- An object of the properties of a node in the event, or of none. -/
theorem takenFrom_object {event found : Node} {i : Info} {ds : List (String × Node)}
    (hfound : event.Contains found ∨ found = emptyObject) (hi : i.refName = found.info.refName)
    (hds : ∀ e ∈ ds, event.Contains e.2) : TakenFrom event (.object i (propertiesOf found) ds) where
  isObject := rfl
  contains m hm := by
    rcases Relation.ReflTransGen.cases_head hm with rfl | ⟨c, hc, hcm⟩
    · exact .inl rfl
    · refine .inr (Relation.ReflTransGen.trans ?_ hcm)
      cases hc with
      | property hp =>
        rcases hfound with hfound | rfl
        · cases found with
          | object j ps es => exact hfound.tail (.property hp)
          | _ => cases hp
        · cases hp
      | definition hd => exact hds _ hd
  refName id hid := by
    rw [show (Node.object i (propertiesOf found) ds).info = i from rfl, hi] at hid
    rcases hfound with hfound | rfl
    · exact ⟨found, hfound, hid⟩
    · cases hid

theorem contains_of_defsOf {n : Node} : ∀ e ∈ defsOf n, n.Contains e.2 := by
  intro e he
  cases n with
  | object i ps ds => exact .single (.definition he)
  | _ => cases he

theorem properties_takenFrom (event : Node) : TakenFrom event (properties event) := by
  refine takenFrom_object ?_ rfl contains_of_defsOf
  cases h : objectProperty? event "properties" with
  | none => exact .inr rfl
  | some found => exact .inl (contains_of_objectProperty? h)

theorem contains_of_traits? {event found : Node} (h : traits? event = some found) : event.Contains found := by
  unfold traits? at h
  cases htraits : objectProperty? event "traits" with
  | some n =>
    rw [htraits] at h; cases h
    exact contains_of_objectProperty? htraits
  | none =>
    rw [htraits] at h
    obtain ⟨context, hcontext, hfound⟩ := Option.bind_eq_some_iff.1 h
    exact (contains_of_objectProperty? hcontext).trans (contains_of_objectProperty? hfound)

theorem traits_takenFrom (event : Node) : TakenFrom event (traits event) := by
  unfold traits
  cases h : traits? event with
  | none => exact takenFrom_object (.inr rfl : event.Contains emptyObject ∨ _) rfl (fun _ he => by cases he)
  | some found =>
    have hfound := contains_of_traits? h
    exact takenFrom_object (.inl hfound) rfl (fun e he => hfound.trans (contains_of_defsOf e he))

theorem payload_takenFrom (c : Call) (event : Node) : TakenFrom event (c.payload event) := by
  unfold Call.payload
  split
  · exact traits_takenFrom event
  · exact properties_takenFrom event

end Event
end TrackingPlan
