import TrackingPlan.Proofs.Build.References
import TrackingPlan.Proofs.Emission.Plan
import TrackingPlan.Proofs.Identical
import TrackingPlan.Proofs.Parser.Regular
/-!
# Traversal — the walk over what a build hands out

With references switched off a walk goes on from a node to a custom type that does not lie in it.  What a custom type
names is registered before it, so each type that is followed stands before the last one, and no chain is longer than
there are types (`walkWithin_planned`).  A parse makes no bare nodes, so the walk has a hook for each node that it comes
to (`traversal_returns`).
-/
namespace TrackingPlan
namespace Walk

/-- **What a hook may be called for.**  A reference is to a custom type, and only written where the target supports
that; a node that is nothing but a reference to a custom type is never handed over as a primitive. -/
def HookCall.Proper (c : Client) : HookCall → Prop
  | .reference n id _ => c.options.defSupport.isGiven = true ∧ n.info.refName = some id ∧ ∃ t, c.type? id = some t
  | .primitive i .any _ _ => ∀ id, i.refName = some id → c.type? id = none
  | _ => True

/-- **A walk goes by a plan** for the node at a path, all whose calls are proper. -/
def Planned (c : Client) (path : Path) (w : Course) : Prop :=
  ∃ p : Plan, p.At path ∧ (∀ call ∈ p.calls, call.Proper c) ∧ ∀ σ α h, w σ α h = p.run h

variable {c : Client} {n : Node}

/-! ## One node -/

theorem registered?_eq_some {r : String} : c.registered? n = some r ↔
    n.info.refName = some r ∧ ∃ t, c.type? r = some t := by
  rw [Client.registered?, Option.filter_eq_some_iff, Option.isSome_iff_exists]

theorem typeReference?_eq_some {r : String} (h : c.typeReference? n = some r) (path : Path) :
    (HookCall.reference n r path).Proper c := by
  unfold Client.typeReference? at h
  split at h
  · next hgiven => exact ⟨hgiven, registered?_eq_some.1 h⟩
  · cases h

/-- A primitive that stands for no custom type may go to its hook. -/
theorem proper_primitive {i : Info} {k : Primitive} {e : Option (List Json)}
    (h : c.standsFor? (.primitive i k e) = none) (path : Path) : (HookCall.primitive i k e path).Proper c := by
  cases k with
  | any =>
    intro id hid
    by_contra htype
    obtain ⟨t, ht⟩ := Option.ne_none_iff_exists'.1 htype
    have hsome : c.standsFor? (.primitive i .any e) = some id := registered?_eq_some.2 ⟨hid, t, ht⟩
    rw [h] at hsome
    cases hsome
  | _ => trivial

theorem standsFor?_eq_some {r : String} (h : c.standsFor? n = some r) : n.info.refName = some r ∧
    ∃ t, c.type? r = some t := by
  unfold Client.standsFor? at h
  split at h
  · exact registered?_eq_some.1 h
  · cases h

/-! ## A tree -/

section

variable {follow : (σ α : Type) → Hooks σ α → Follow σ α}

/-- What a walk may meet in a node: nothing bare, and references that can be followed. -/
structure Passable (c : Client) (follow : (σ α : Type) → Hooks σ α → Follow σ α) (n : Node) : Prop where
  solid : n.Solid
  names : ∀ id, n.Names id → ∀ path, Planned c path (fun σ α h => follow σ α h id path)

theorem Passable.child {m : Node} (h : Passable c follow n) (hm : Node.Child n m) : Passable c follow m :=
  ⟨h.solid.of_contains (.single hm), fun id hid => h.names id (.of_child hm hid)⟩

section

variable {origin : Option String} {path : Path}

/-- **Only what is not to be referenced has to be looked at** by its kind. -/
theorem planned_unless_reference (harray : n.kind? ≠ some .array)
    (h : c.typeReference? n = none → Planned c path fun σ α h => walkNode c h (follow σ α h) origin n path) :
    Planned c path fun σ α h => walkNode c h (follow σ α h) origin n path := by
  cases href : c.typeReference? n with
  | some r =>
    exact ⟨.reference n r path, rfl, List.forall_mem_singleton.2 (typeReference?_eq_some href path),
      fun _ _ _ => walkNode_of_reference href harray⟩
  | none => exact h href

theorem planned_primitive {i : Info} {k : Primitive} {e : Option (List Json)}
    (hn : Passable c follow (.primitive i k e)) (horigin : ∀ r, origin = some r → i.refName ≠ some r)
    (href : c.typeReference? (.primitive i k e) = none) :
    Planned c path fun σ α h => walkNode c h (follow σ α h) origin (.primitive i k e) path := by
  cases hstands : c.standsFor? (.primitive i k e) with
  | none =>
    refine ⟨.primitive i k e path, rfl, List.forall_mem_singleton.2 (proper_primitive hstands path), fun _ _ _ => ?_⟩
    exact walkNode_itself href fun r hr => by rw [hstands] at hr; cases hr
  | some r =>
    have hrefers := (standsFor?_eq_some hstands).1
    obtain ⟨p, hat, hp, hrun⟩ := hn.names r (.of_info hrefers) path
    refine ⟨p, hat, hp, fun σ α h => ?_⟩
    exact (walkNode_standsFor href hstands fun he => horigin r he hrefers).trans (hrun σ α h)

end

mutual
/-- **The walk over a node goes by a plan**, when that to each custom type it names does.  A node is not taken for the
custom type that it is itself, since it does not refer to that. -/
theorem walkNode_planned : ∀ {n : Node}, Passable c follow n → ∀ {origin : Option String},
    (∀ r, origin = some r → n.info.refName ≠ some r) → ∀ path,
      Planned c path (fun σ α h => walkNode c h (follow σ α h) origin n path)
  | .bare i, hn, _, _, _ => absurd .refl (hn.solid i)
  | .primitive i k e, hn, _, horigin, _ => planned_unless_reference nofun (planned_primitive hn horigin)
  | .array i m, hn, _, _, path => by
    obtain ⟨p, hat, hp, hrun⟩ := walkNode_planned (hn.child (.items i m)) of_no_origin (path ++ [.str "items"])
    refine ⟨.array i p path, ⟨rfl, hat⟩, ?_, fun σ α h => ?_⟩
    · rw [Plan.calls]
      exact List.forall_mem_append.2 ⟨hp, List.forall_mem_singleton.2 trivial⟩
    · simp only [walkNode, Plan.run, hrun]
  | .object i ps ds, hn, _, _, path => by
    refine planned_unless_reference nofun fun href => ?_
    obtain ⟨qs, hat, hqs, hrun⟩ := walkProperties_planned (fun p hp => hn.child (.property hp)) path
    refine ⟨.object i qs path, ⟨rfl, hat⟩, ?_, fun σ α h => ?_⟩
    · rw [Plan.calls]
      exact List.forall_mem_append.2 ⟨hqs, List.forall_mem_singleton.2 trivial⟩
    · simp only [walkNode_object href, Plan.run, hrun]
  | .union i ms e, hn, _, _, path => by
    refine planned_unless_reference nofun fun href => ?_
    obtain ⟨qs, hat, hqs, hrun⟩ := walkMembers_planned (fun m hm => hn.child (.member hm)) path 0
    refine ⟨.union i e qs path, ⟨rfl, hat⟩, ?_, fun σ α h => ?_⟩
    · rw [Plan.calls]
      exact List.forall_mem_append.2 ⟨hqs, List.forall_mem_singleton.2 trivial⟩
    · simp only [walkNode_union href, Plan.run, hrun]
theorem walkProperties_planned : ∀ {ps : List Node}, (∀ p ∈ ps, Passable c follow p) → ∀ path,
    ∃ qs, Plan.PropertiesAt qs path ∧ (∀ call ∈ Plan.callsOfProperties qs, call.Proper c) ∧
      ∀ σ α (h : Hooks σ α), walkProperties c h (follow σ α h) path ps = Plan.runProperties h qs
  | [], _, _ => ⟨[], trivial, List.forall_mem_nil _, fun σ α h => by rw [walkProperties, Plan.runProperties]⟩
  | p :: ps, h, path => by
    obtain ⟨q, hat, hq, hrun⟩ := walkNode_planned (h p List.mem_cons_self) of_no_origin (path ++ [p.info.name])
    obtain ⟨qs, hats, hqs, hruns⟩ := walkProperties_planned (fun m hm => h m (List.mem_cons_of_mem _ hm)) path
    refine ⟨(p.info.name, q) :: qs, ⟨hat, hats⟩, ?_, fun σ α h => ?_⟩
    · rw [Plan.callsOfProperties]
      exact List.forall_mem_append.2 ⟨hq, hqs⟩
    · simp only [walkProperties, Plan.runProperties, hrun, hruns]
theorem walkMembers_planned : ∀ {ms : List Node}, (∀ m ∈ ms, Passable c follow m) → ∀ path index,
    ∃ qs, Plan.MembersAt qs path index ∧ (∀ call ∈ Plan.callsOfMembers qs, call.Proper c) ∧
      ∀ σ α (h : Hooks σ α), walkMembers c h (follow σ α h) path index ms = Plan.runMembers h qs
  | [], _, _, _ => ⟨[], trivial, List.forall_mem_nil _, fun σ α h => by rw [walkMembers, Plan.runMembers]⟩
  | m :: ms, h, path, index => by
    obtain ⟨q, hat, hq, hrun⟩ := walkNode_planned (h m List.mem_cons_self) of_no_origin (path ++ [memberStep index])
    obtain ⟨qs, hats, hqs, hruns⟩ := walkMembers_planned (fun m hm => h m (List.mem_cons_of_mem _ hm)) path (index + 1)
    refine ⟨q :: qs, ⟨hat, hats⟩, ?_, fun σ α h => ?_⟩
    · rw [Plan.callsOfMembers]
      exact List.forall_mem_append.2 ⟨hq, hqs⟩
    · simp only [walkMembers, Plan.runMembers, hrun, hruns]
end

end

/-! ## Following custom types -/

/-- The custom type stands among the first ones, `bound` of them. -/
def StandsWithin (c : Client) (bound : Nat) (id : String) : Prop :=
  ∃ before t after, c.types = before ++ (.key id, t) :: after ∧ before.length < bound

variable {r : Resolver} (hsound : r.Sound c.types) (hsolid : ∀ e ∈ c.types, e.2.Solid)

include hsound

theorem type?_of_split {before after : Registry} {id : String} {t : Node}
    (h : c.types = before ++ (.key id, t) :: after) : c.type? id = some t :=
  Table.lookup_of_mem hsound.nodup (by rw [h]; exact List.mem_append_right _ List.mem_cons_self)

/-- What a custom type names stands before it, so it does not name itself. -/
theorem standsWithin_of_names {before after : Registry} {id : String} {t : Node}
    (h : c.types = before ++ (.key id, t) :: after) {name : String} (hname : t.Names name) :
    name ≠ id ∧ StandsWithin c before.length name := by
  obtain ⟨u, hu⟩ := hsound.names_earlier h name hname
  obtain ⟨front, rest, rfl⟩ := List.append_of_mem hu
  constructor
  · rintro rfl
    have hnodup := hsound.nodup
    rw [h, List.map_append, List.map_append, List.map_cons] at hnodup
    exact (List.nodup_append.1 hnodup).2.2 (.key name) (List.mem_append_right _ List.mem_cons_self) _
      List.mem_cons_self rfl
  · refine ⟨front, u, rest ++ (.key id, t) :: after, by rw [h, List.append_assoc, List.cons_append], ?_⟩
    rw [List.length_append, List.length_cons]
    omega

include hsolid

/-- **A walk that may follow as many custom types as stand within its reach goes by a plan**, by induction on their
number: a type that is followed names only types that stand before it. -/
theorem walkWithin_planned : ∀ (depth : Nat) {n : Node}, n.Solid → (∀ id, n.Names id → StandsWithin c depth id) →
    ∀ {origin : Option String}, (∀ id, origin = some id → n.info.refName ≠ some id) → ∀ path,
      Planned c path (fun _ _ h => walkWithin c h depth origin n path)
  | 0, _, hn, hnames, _, horigin, path =>
    walkNode_planned ⟨hn, fun id hid _ => by
      obtain ⟨_, _, _, -, hlt⟩ := hnames id hid
      exact absurd hlt (Nat.not_lt_zero _)⟩ horigin path
  | depth + 1, _, hn, hnames, _, horigin, path =>
    walkNode_planned ⟨hn, fun id hid path => by
      obtain ⟨before, t, after, hsplit, hlt⟩ := hnames id hid
      have ht : (.key id, t) ∈ c.types := by rw [hsplit]; exact List.mem_append_right _ List.mem_cons_self
      simp only [type?_of_split hsound hsplit]
      -- all that the type names stands before it, so the rest of the depth is enough
      refine walkWithin_planned depth (hsolid _ ht) (fun name hname => ?_) ?_ path
      · obtain ⟨-, front, u, rest, hfront, hlen⟩ := standsWithin_of_names hsound hsplit hname
        exact ⟨front, u, rest, hfront, by omega⟩
      · intro name hname hself
        cases hname
        exact (standsWithin_of_names hsound hsplit (.of_info hself)).1 rfl⟩ horigin path

end Walk

/-! ## Solid builds -/

theorem Resolver.Sound.solid {r : Resolver} {reg : Registry} (h : r.Sound reg) : ∀ e ∈ reg, e.2.Solid := by
  intro e he
  obtain ⟨before, after, hreg⟩ := List.append_of_mem he
  exact (h.at_entry hreg).2.2.regular.solid

namespace Build

open Keywords (Members)
open Walk (Hooks Path Planned)

variable {ms : Members} {eventName : String} {options : Options} {b : Build}

namespace Prepared

variable (h : Prepared ms eventName options b)

include h

theorem solid {n : Node} (hn : b.Offers n) : n.Solid := by
  have hschema : b.schema.Solid := by
    obtain ⟨rs, hends, hrs⟩ := h.schema
    exact (h.sound.regular hends hrs fun _ => .inr rfl : b.schema.Regular .root).solid
  rcases hn.origin with ⟨id, hid⟩ | rfl | hfrom
  · exact h.sound.solid _ hid
  · exact hschema
  · intro i hi
    rcases hfrom.contains _ hi with rfl | hi
    · cases hfrom.isObject
    · exact hschema i hi

/-- **The walk over a node that a build hands out**, or that lies in one, goes by a plan. -/
theorem planned {root n : Node} (hroot : b.Offers root) (hn : root.Contains n) (path : Path) :
    Planned b.client path (fun _ _ hooks => Walk.walk b.client hooks n path) := by
  refine Walk.walkWithin_planned h.sound h.sound.solid _ ((h.solid hroot).of_contains hn) ?_ Walk.of_no_origin path
  rintro id ⟨m, hm, hid⟩
  obtain ⟨t, ht⟩ := h.names hroot ⟨m, hn.trans hm, hid⟩
  obtain ⟨before, after, hsplit⟩ := List.append_of_mem ht
  refine ⟨before, t, after, hsplit, ?_⟩
  rw [show b.client.types = before ++ (.key id, t) :: after from hsplit, List.length_append, List.length_cons]
  omega

end Prepared

/-- **A walk over what a build hands out returns**, from every node in it and with all hooks that do; and it calls them
properly: for references to custom types only, and only where the target supports these, and never for a primitive that
is nothing but such a reference. -/
theorem traversal_returns {raw : Json} (h : (prepare raw eventName options).outcome {} = .ok b) {root n : Node}
    (hroot : b.Offers root) (hn : root.Contains n) {σ α : Type} {hooks : Hooks σ α} (hret : hooks.Return) (path : Path)
    (s : σ) :
    ∃ a s' calls, Walk.walk b.client hooks n path s = .ok a s' ∧
      Walk.walk b.client hooks.logged n path (s, []) = .ok a (s', calls) ∧
      ∀ call ∈ calls, call.Proper b.client := by
  obtain ⟨ms, -, hprep⟩ := prepared_of_prepare h
  obtain ⟨p, -, hproper, hrun⟩ := hprep.planned hroot hn path
  obtain ⟨a, s', hp⟩ := p.run_returns hret s
  refine ⟨a, s', p.calls, ?_, ?_, hproper⟩
  · exact (congrFun (hrun σ α hooks) s).trans hp
  · exact (congrFun (hrun _ α hooks.logged) (s, [])).trans (p.run_logged hooks hp [])

/-- An event with a custom type that stands for another one, which stands for a third. -/
def aliased : Members :=
  [("type", .str "object"), ("properties", .obj [("id", .obj [("$ref", .str "#/$defs/Id")])]),
    ("$defs", .obj [("Id", .obj [("$ref", .str "#/$defs/Key")]), ("Key", .obj [("$ref", .str "#/$defs/Text")]),
      ("Text", .obj [("type", .str "string")])])]

/-- Custom types are written out in place. -/
def inlining : Options := { defSupport := .bool false }

def aliasedInfo (name : String) (refName : Option String) : Info :=
  { name := .str name, description := some (.str "Custom type for Signed Up"), isNullable := refName.isSome, refName }

def aliasedText : Node := .primitive (aliasedInfo "Text" none) .string none
def aliasedKey : Node := .primitive (aliasedInfo "Key" (some "Text")) .any none
def aliasedId : Node := .primitive (aliasedInfo "Id" (some "Key")) .any none

def aliasedProperty : Node := .primitive { name := .str "id", isNullable := true, refName := some "Id" } .any none

def aliasedBuild : Build where
  eventName := "Signed Up"
  schema := .object { name := .str "Signed Up" } [aliasedProperty]
    [("Id", aliasedId), ("Key", aliasedKey), ("Text", aliasedText)]
  customTypes := [(.key "Text", aliasedText), (.key "Key", aliasedKey), (.key "Id", aliasedId)]
  options := inlining

theorem prepare_aliased : (prepare (.obj aliased) "Signed Up" inlining).outcome {} = .ok aliasedBuild := by
  decide +kernel

/-- The walk over the property ends, and properly, with the third type in its place. -/
theorem traversal_returns_aliased :
    (prepare (.obj aliased) "Signed Up" inlining).outcome {} = .ok aliasedBuild ∧
      aliasedBuild.schema.Contains aliasedProperty ∧ Walk.Plan.recorder.Return ∧
      ∃ a s' calls, Walk.walk aliasedBuild.client Walk.Plan.recorder aliasedProperty [.str "id"] () = .ok a s' ∧
        Walk.walk aliasedBuild.client Walk.Plan.recorder.logged aliasedProperty [.str "id"] ((), []) =
          .ok a (s', calls) ∧
        (∀ call ∈ calls, call.Proper aliasedBuild.client) ∧
        a = .primitive (aliasedInfo "Text" none) .string none [.str "id"] := by
  have hproperty : aliasedBuild.schema.Contains aliasedProperty := .single (.property List.mem_cons_self)
  obtain ⟨a, s', calls, hwalk, hlogged, hproper⟩ :=
    traversal_returns prepare_aliased .schema hproperty Walk.Plan.recorder_return [.str "id"] ()
  refine ⟨prepare_aliased, hproperty, Walk.Plan.recorder_return, a, s', calls, hwalk, hlogged, hproper, ?_⟩
  have hplan : Walk.walk aliasedBuild.client Walk.Plan.recorder aliasedProperty [.str "id"] () =
      .ok (.primitive (aliasedInfo "Text" none) .string none [.str "id"]) () := by rfl
  rw [hplan] at hwalk
  cases hwalk
  rfl

end Build
end TrackingPlan
