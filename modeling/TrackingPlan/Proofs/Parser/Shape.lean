import TrackingPlan.Proofs.Node
import TrackingPlan.Proofs.Parser.Site
import TrackingPlan.Proofs.Script
/-!
# Shape — what the shape of a schema is like

A shape is of the kind that its types call for, and says nothing of itself but what it refers to (`IsShape`); what a
schema says of itself is only written onto it afterwards.  The definitions of an object at the root are the custom types
that were asked for.
-/
namespace TrackingPlan
namespace Parser

open Keywords (Members)
open Script (Request Spec)

/-- A specification that leaves open what is asked and what goes wrong. -/
abbrev EndsWith {α : Type} (s : Script α) (Q : List Request → α → Prop) : Prop :=
  Spec (fun _ => True) (fun _ => True) s Q

theorem endsWith_any {α : Type} (s : Script α) : EndsWith s (fun _ _ => True) := by
  induction s with
  | done => trivial
  | fail => trivial
  | note _ _ ih => exact ih
  | reference _ _ _ ih => exact ⟨trivial, ih⟩
  | definition _ _ _ ih => exact fun n => ⟨trivial, ih n⟩

/-- **A node that is a shape of some kind.** -/
structure IsShape (kind : Kind) (n : Node) : Prop where
  kind : n.kind? = some kind
  info : ∃ ref, n.info = { refName := ref }

variable {linked : Bool}

theorem singleItem_isShape (p : Part) (path : Location) :
    EndsWith (singleItem p path) (fun _ n => IsShape .array n) := by
  unfold singleItem
  split
  · split
    · exact (endsWith_any _).bind (fun _ n _ => ⟨rfl, n.info.refName, rfl⟩)
    · split
      · exact (endsWith_any _).bind (fun _ _ _ => ⟨rfl, none, rfl⟩)
      · exact (endsWith_any _).bind (fun _ _ _ => ⟨rfl, none, rfl⟩)
  · exact ⟨rfl, none, rfl⟩

theorem arrayShape_isShape (items : Option View) (path : Location) :
    EndsWith (arrayShape items path) (fun _ n => IsShape .array n) := by
  unfold arrayShape
  split
  · exact ⟨rfl, none, rfl⟩
  · split
    · exact singleItem_isShape _ _
    · unfold listShape
      split
      · exact ⟨rfl, none, rfl⟩
      · exact singleItem_isShape _ _
      · exact (endsWith_any _).bind (fun _ _ _ => ⟨rfl, none, rfl⟩)
    · exact ⟨rfl, none, rfl⟩

theorem primitiveShape_isShape (ms : Members) (types : List RawType) (p : Primitive) (path : Location) :
    EndsWith (primitiveShape ms types p path) (fun _ n => IsShape (.primitive p) n) :=
  (endsWith_any _).bind (fun _ _ _ => ⟨rfl, none, rfl⟩)

theorem objectShape_isShape (ms : Members) (vs : List (String × View)) (path : Location) :
    EndsWith (objectShape linked ms vs path) (fun _ n => IsShape .object n) := by
  unfold objectShape
  refine (endsWith_any _).bind fun _ _ _ => (endsWith_any _).bind fun _ _ _ => (endsWith_any _).bind fun _ _ _ =>
    (endsWith_any _).bind fun _ _ _ => (endsWith_any _).bind fun _ _ _ => ⟨rfl, none, rfl⟩

theorem memberShape_isShape (ms : Members) (vs : List (String × View)) (path : Location) (t : RawType) :
    EndsWith (memberShape linked ms vs path t) (fun _ n => IsShape t.kind n) := by
  cases t with
  | object => exact objectShape_isShape ms vs path
  | array => exact arrayShape_isShape _ path
  | _ => exact primitiveShape_isShape ms _ _ path

/-- **The shape of a schema is of the kind of its types**, and says nothing of itself. -/
theorem shapeOf_isShape (ms : Members) (vs : List (String × View)) (types : List RawType) (path : Location) :
    EndsWith (shapeOf linked ms vs types path) (fun _ n => IsShape (RawType.kindOf types) n) := by
  unfold shapeOf RawType.kindOf
  generalize types.filter (· ≠ .null) = ts
  match ts with
  | [] => exact primitiveShape_isShape ms types .any path
  | [t] => exact memberShape_isShape ms vs path t
  | _ :: _ :: _ => exact (endsWith_any _).bind fun _ _ _ => (endsWith_any _).bind fun _ _ _ => ⟨rfl, none, rfl⟩

/-- A parsed schema has its own description, if any. -/
theorem script_description (ms : Members) (name : Json) (isRequired : Bool) (path : Location) :
    EndsWith (script linked (.obj ms) name isRequired path)
      (fun _ n => n.info.description = Json.given? (ms.lookup "description")) := by
  unfold script parsePart
  rw [view_raw, shape_view_obj]
  refine (endsWith_any _).bind fun _ _ _ => (endsWith_any _).bind fun _ types _ => ?_
  refine (shapeOf_isShape ms _ types path).bind fun _ n hn => ?_
  obtain ⟨ref, hinfo⟩ := hn.info
  show (n.withInfo _).info.description = _
  rw [Node.info_withInfo, hinfo]
  cases Json.given? (ms.lookup "description") <;> rfl

/-! ## Definitions at the root -/

/-- **The definitions of an object at the root** are the custom types asked for under the keys of `members` that declare
one, in their order. -/
def RootDefs (members : Members) (rs : List Request) (ds : List (String × Node)) : Prop :=
  ds.map Prod.fst = (members.filter (fun e => !e.2.isBool)).map Prod.fst ∧
    ∀ e ∈ ds, .definition e.1 Pointer.root e.2 ∈ rs

theorem parseDefinitions_root : ∀ members : Members,
    EndsWith (parseDefinitions true Pointer.root (members.map (fun e => (e.1, (view true e.2).toPart))))
      (RootDefs members)
  | [] => ⟨rfl, fun _ he => by cases he⟩
  | (k, v) :: rest => by
    have hrest := parseDefinitions_root rest
    rw [List.map_cons, parseDefinitions]
    unfold RootDefs at hrest ⊢
    simp only [view_raw, List.filter_cons]
    split
    · next hb => rw [hb]; exact hrest
    · next hb =>
      rw [Bool.eq_false_iff.2 hb]
      refine Spec.bind (Q := fun rs n => .definition k Pointer.root n ∈ rs) ?_ (fun rs n hn => ?_)
      · rw [parseDefinition, if_pos ⟨rfl, rfl⟩]
        exact fun n => ⟨trivial, List.mem_singleton_self _⟩
      · refine hrest.bind fun rs' ds hds => ⟨?_, List.forall_mem_cons.2 ⟨?_, fun e he => ?_⟩⟩
        · simp [hds.1]
        · exact List.mem_append_left _ hn
        · exact List.mem_append_right _ (List.mem_append_left _ (hds.2 e he))

theorem rootDefs_grows (members : Members) (ds : List (String × Node)) :
    Script.Grows (RootDefs members · ds) := fun _ _ h hrs => ⟨h.1, fun e he => hrs _ (h.2 e he)⟩

theorem types_of_kindOf_object {types : List RawType} (h : RawType.kindOf types = .object) :
    types.filter (· ≠ .null) = [.object] := by
  unfold RawType.kindOf at h
  generalize types.filter (· ≠ .null) = ts at h ⊢
  match ts with
  | [] => cases h
  | [t] => cases t <;> first | rfl | cases h
  | _ :: _ :: _ => cases h

theorem objectShape_root (ms : Members) :
    EndsWith (objectShape true ms (ms.map (fun e => (e.1, view true e.2))) Pointer.root)
      (fun rs n => ∀ i ps ds, n = .object i ps ds → RootDefs (membersIn ms "$defs") rs ds) := by
  unfold objectShape
  refine (endsWith_any _).bind fun rs _ _ => (endsWith_any _).bind fun rs' _ _ =>
    (endsWith_any _).bind fun rs'' _ _ => ?_
  refine Spec.bind
    (Q := fun rs ps => rs = [] ∧ ps = (membersIn ms "$defs").map (fun e => (e.1, (view true e.2).toPart)))
    (Script.spec_ofExcept (fun _ _ => trivial) (fun ps hps => ⟨rfl, ?_⟩)) ?_
  · rw [lookup_views] at hps
    exact (membersOf_ok hps).1
  · rintro _ _ ⟨rfl, rfl⟩
    refine (parseDefinitions_root _).bind fun rs ds hds i ps es he => ?_
    cases he
    exact rootDefs_grows _ _ _ _ hds (fun q hq => by simp [hq])

theorem shapeOf_root (ms : Members) (types : List RawType) :
    EndsWith (shapeOf true ms (ms.map (fun e => (e.1, view true e.2))) types Pointer.root)
      (fun rs n => ∀ i ps ds, n = .object i ps ds → RootDefs (membersIn ms "$defs") rs ds) := by
  by_cases hkind : RawType.kindOf types = .object
  · unfold shapeOf
    rw [types_of_kindOf_object hkind]
    exact objectShape_root ms
  · refine (shapeOf_isShape ms _ types Pointer.root).imp fun rs n hn i ps ds he => ?_
    subst he
    exact absurd (Option.some.inj hn.kind).symm hkind

/-- **A parse at the root** that ends with an object has the custom types for its definitions. -/
theorem script_root (ms : Members) (name : Json) (isRequired : Bool) :
    EndsWith (script true (.obj ms) name isRequired Pointer.root)
      (fun rs n => ∀ i ps ds, n = .object i ps ds → RootDefs (membersIn ms "$defs") rs ds) := by
  unfold script parsePart
  rw [view_raw, shape_view_obj]
  refine (endsWith_any _).bind fun rs _ _ => (endsWith_any _).bind fun rs' types _ => ?_
  refine (shapeOf_root ms types).bind fun rs'' n hn i ps ds he => ?_
  cases n with
  | object j qs es =>
    cases he
    refine rootDefs_grows _ _ _ _ (hn j _ _ rfl) (fun q hq => by simp [hq])
  | _ => cases he

end Parser
end TrackingPlan
