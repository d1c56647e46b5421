import TrackingPlan.Proofs.Emission.Plan
import TrackingPlan.Proofs.Naming.Suffix
/-!
# Paths — the calls of a walk go by their paths

What lies in a node is walked at paths behind that of the node, each child at a step of its own.  As long as the steps
to the children of one node differ, so do all paths; and as a node is handed over after what lies in it, no path begins
that of a later call (`Plan.bottomUp_inner`).  A walk that returns has gone by such a plan, whatever its client
(`walkWithin_follows`), so its calls are told apart by their paths (`walk_paths`).
-/
namespace TrackingPlan
namespace Walk

/-! ## Paths -/

theorem prefix_of_child {path q : Path} {step : Json} (h : path ++ [step] <+: q) : path <+: q :=
  (List.prefix_append path [step]).trans h

/-- A path behind a child is longer than that of the node. -/
theorem not_prefix_of_child {path q : Path} {step : Json} (h : path ++ [step] <+: q) : ¬q <+: path := fun hq => by
  have hle := (h.trans hq).length_le
  rw [List.length_append, List.length_singleton] at hle
  omega

/-- **Paths behind different children** do not lie on one way. -/
theorem step_eq_of_behind {path q q' : Path} {step step' : Json} (h : path ++ [step] <+: q)
    (h' : path ++ [step'] <+: q') (hq : q <+: q') : step = step' := by
  have hlen : (path ++ [step]).length = (path ++ [step']).length := by
    rw [List.length_append, List.length_append, List.length_singleton, List.length_singleton]
  have heq := (List.prefix_of_prefix_length_le (h.trans hq) h' (Nat.le_of_eq hlen)).eq_of_length hlen
  exact List.singleton_inj.1 (List.append_cancel_left heq)

theorem memberStep_injective {i j : Nat} (h : memberStep i = memberStep j) : i = j :=
  Numeral.natDigits_injective (String.ofList_injective (Json.str.inj h))

/-- **No call's path begins that of a later call.** -/
def BottomUp (calls : List HookCall) : Prop := calls.Pairwise fun a b => ¬a.path <+: b.path

theorem BottomUp.nodup {calls : List HookCall} (h : BottomUp calls) : (calls.map HookCall.path).Nodup :=
  List.pairwise_map.2 (h.imp fun hab he => hab (by rw [he]))

/-- A call whose path goes on from another one's comes before it. -/
theorem BottomUp.lt {calls : List HookCall} (h : BottomUp calls) {i j : Nat} {call other : HookCall}
    (hi : calls[i]? = some call) (hj : calls[j]? = some other) (hpath : other.path <+: call.path)
    (hne : other.path ≠ call.path) : i < j := by
  obtain ⟨hi, rfl⟩ := List.getElem?_eq_some_iff.1 hi
  obtain ⟨hj, rfl⟩ := List.getElem?_eq_some_iff.1 hj
  rcases Nat.lt_trichotomy i j with hij | rfl | hij
  · exact hij
  · exact absurd rfl hne
  · exact absurd hpath (List.pairwise_iff_getElem.1 h j i _ _ hij)

/-- **The properties of every object that is handed over have different names.** -/
def DistinctNames (calls : List HookCall) : Prop := ∀ i names path, .object i names path ∈ calls → names.Nodup

theorem DistinctNames.left {calls calls' : List HookCall} (h : DistinctNames (calls ++ calls')) : DistinctNames calls :=
  fun i names path hmem => h i names path (List.mem_append_left _ hmem)

theorem DistinctNames.right {calls calls' : List HookCall} (h : DistinctNames (calls ++ calls')) :
    DistinctNames calls' :=
  fun i names path hmem => h i names path (List.mem_append_right _ hmem)

namespace Plan

/-! ## The calls of a plan -/

/-- **The call for the node itself.** -/
def own : Plan → HookCall
  | .primitive i k e path => .primitive i k e path
  | .array i _ path => .array i path
  | .object i ps path => .object i (ps.map Prod.fst) path
  | .union i e _ path => .union i e path
  | .reference n id path => .reference n id path

/-- The calls for what lies in the node. -/
def inner : Plan → List HookCall
  | .array _ a _ => calls a
  | .object _ ps _ => callsOfProperties ps
  | .union _ _ ms _ => callsOfMembers ms
  | _ => []

theorem calls_eq (p : Plan) : p.calls = p.inner ++ [p.own] := by
  cases p <;> rfl

theorem path_own {p : Plan} {path : Path} (h : p.At path) : p.own.path = path := by
  cases p with
  | primitive => exact h
  | array => exact h.1
  | object => exact h.1
  | union => exact h.1
  | reference => exact h

theorem prefix_of_inner {p : Plan} {path : Path} (hat : p.At path)
    (h : ∀ call ∈ p.inner, ∃ step, path ++ [step] <+: call.path) : ∀ call ∈ p.calls, path <+: call.path := by
  rw [calls_eq, List.forall_mem_append, List.forall_mem_singleton, path_own hat]
  refine ⟨fun call hcall => ?_, List.prefix_rfl⟩
  obtain ⟨step, hstep⟩ := h call hcall
  exact prefix_of_child hstep

mutual
/-- **What lies in a node is walked behind it.** -/
theorem child_of_mem_inner : ∀ (p : Plan) {path : Path}, p.At path →
    ∀ call ∈ p.inner, ∃ step, path ++ [step] <+: call.path
  | .primitive .., _, _, _, hcall => by cases hcall
  | .array i p path, _, hat, call, hcall => by
    obtain ⟨rfl, hat⟩ := hat
    exact ⟨_, prefix_of_inner hat (child_of_mem_inner p hat) call hcall⟩
  | .object i ps path, _, hat, call, hcall => by
    obtain ⟨rfl, hat⟩ := hat
    obtain ⟨name, -, hname⟩ := child_of_mem_properties ps hat call hcall
    exact ⟨name, hname⟩
  | .union i e ms path, _, hat, call, hcall => by
    obtain ⟨rfl, hat⟩ := hat
    obtain ⟨j, -, hj⟩ := child_of_mem_members ms hat call hcall
    exact ⟨_, hj⟩
  | .reference .., _, _, _, hcall => by cases hcall
theorem child_of_mem_properties : ∀ (ps : List (Json × Plan)) {path : Path}, PropertiesAt ps path →
    ∀ call ∈ callsOfProperties ps, ∃ name ∈ ps.map Prod.fst, path ++ [name] <+: call.path
  | [], _, _, _, hcall => by cases hcall
  | (name, p) :: ps, _, hat, call, hcall => by
    rw [callsOfProperties] at hcall
    rcases List.mem_append.1 hcall with hcall | hcall
    · exact ⟨name, List.mem_cons_self, prefix_of_inner hat.1 (child_of_mem_inner p hat.1) call hcall⟩
    · obtain ⟨other, hother, hpath⟩ := child_of_mem_properties ps hat.2 call hcall
      exact ⟨other, List.mem_cons_of_mem _ hother, hpath⟩
theorem child_of_mem_members : ∀ (ms : List Plan) {path : Path} {index : Nat}, MembersAt ms path index →
    ∀ call ∈ callsOfMembers ms, ∃ j, index ≤ j ∧ path ++ [memberStep j] <+: call.path
  | [], _, _, _, _, hcall => by cases hcall
  | p :: ms, _, index, hat, call, hcall => by
    rw [callsOfMembers] at hcall
    rcases List.mem_append.1 hcall with hcall | hcall
    · exact ⟨index, Nat.le_refl _, prefix_of_inner hat.1 (child_of_mem_inner p hat.1) call hcall⟩
    · obtain ⟨j, hj, hpath⟩ := child_of_mem_members ms hat.2 call hcall
      exact ⟨j, Nat.le_of_succ_le hj, hpath⟩
end

/-- **All calls of a plan have paths behind its own.** -/
theorem prefix_of_mem_calls {p : Plan} {path : Path} (hat : p.At path) : ∀ call ∈ p.calls, path <+: call.path :=
  prefix_of_inner hat (child_of_mem_inner p hat)

/-! ## The order of the calls -/

theorem bottomUp_of_inner {p : Plan} {path : Path} (hat : p.At path) (h : BottomUp p.inner) : BottomUp p.calls := by
  rw [calls_eq]
  refine List.pairwise_append.2 ⟨h, List.pairwise_singleton _ _, fun call hcall other hother => ?_⟩
  rw [List.mem_singleton.1 hother, path_own hat]
  obtain ⟨step, hstep⟩ := child_of_mem_inner p hat call hcall
  exact not_prefix_of_child hstep

mutual
/-- **A plan's calls go from the bottom up**, when the properties of each object have different names. -/
theorem bottomUp_inner : ∀ (p : Plan) {path : Path}, p.At path → DistinctNames p.calls → BottomUp p.inner
  | .primitive .., _, _, _ => .nil
  | .array i p path, _, hat, hnames => by
    obtain ⟨rfl, hat⟩ := hat
    exact bottomUp_of_inner hat (bottomUp_inner p hat hnames.left)
  | .object i ps path, _, hat, hnames => by
    obtain ⟨rfl, hat⟩ := hat
    exact bottomUp_properties ps hat (hnames i _ path (List.mem_append_right _ List.mem_cons_self)) hnames.left
  | .union i e ms path, _, hat, hnames => by
    obtain ⟨rfl, hat⟩ := hat
    exact bottomUp_members ms hat hnames.left
  | .reference .., _, _, _ => .nil
theorem bottomUp_properties : ∀ (ps : List (Json × Plan)) {path : Path}, PropertiesAt ps path →
    (ps.map Prod.fst).Nodup → DistinctNames (callsOfProperties ps) → BottomUp (callsOfProperties ps)
  | [], _, _, _, _ => .nil
  | (name, p) :: ps, _, hat, hnodup, hnames => by
    rw [List.map_cons, List.nodup_cons] at hnodup
    refine List.pairwise_append.2 ⟨bottomUp_of_inner hat.1 (bottomUp_inner p hat.1 hnames.left),
      bottomUp_properties ps hat.2 hnodup.2 hnames.right, fun call hcall other hother hpath => ?_⟩
    -- both lie behind properties of the object, and these have different names
    obtain ⟨name', hname', hother⟩ := child_of_mem_properties ps hat.2 other hother
    cases step_eq_of_behind (prefix_of_mem_calls hat.1 call hcall) hother hpath
    exact hnodup.1 hname'
theorem bottomUp_members : ∀ (ms : List Plan) {path : Path} {index : Nat}, MembersAt ms path index →
    DistinctNames (callsOfMembers ms) → BottomUp (callsOfMembers ms)
  | [], _, _, _, _ => .nil
  | p :: ms, _, index, hat, hnames => by
    refine List.pairwise_append.2 ⟨bottomUp_of_inner hat.1 (bottomUp_inner p hat.1 hnames.left),
      bottomUp_members ms hat.2 hnames.right, fun call hcall other hother hpath => ?_⟩
    obtain ⟨j, hj, hother⟩ := child_of_mem_members ms hat.2 other hother
    have hstep := memberStep_injective (step_eq_of_behind (prefix_of_mem_calls hat.1 call hcall) hother hpath)
    omega
end

end Plan

/-! ## What is handed over -/

/-- **How a node is handed over** at a path: as a reference where that is to be written, and otherwise by the hook of
its kind when it stands for nothing else. -/
inductive HandedOver (c : Client) (path : Path) : Node → HookCall → Prop where
  | primitive {i k e} (href : c.typeReference? (.primitive i k e) = none)
      (hself : c.resolve (.primitive i k e) = .primitive i k e) :
      HandedOver c path (.primitive i k e) (.primitive i k e path)
  | array (i n) : HandedOver c path (.array i n) (.array i path)
  | object {i ps ds} (href : c.typeReference? (.object i ps ds) = none) :
      HandedOver c path (.object i ps ds) (.object i (ps.map (·.info.name)) path)
  | union {i ms e} (href : c.typeReference? (.union i ms e) = none) :
      HandedOver c path (.union i ms e) (.union i e path)
  | reference {n r} (href : c.typeReference? n = some r) (harray : n.kind? ≠ some .array) :
      HandedOver c path n (.reference n r path)

/-- **A walk over a node goes by a plan**, which hands over in the end what the node resolves to. -/
def Follows (c : Client) (n : Node) (path : Path) (w : Course) : Prop :=
  ∃ (p : Plan) (k : Nat), p.At path ∧ HandedOver c path (c.resolve^[k] n) p.own ∧ ∀ σ α h, w σ α h = p.run h

/-- Following a custom type with these hooks, when it returns, has gone by a plan for that type. -/
def FollowsTypes {σ α : Type} (c : Client) (follow : (σ α : Type) → Hooks σ α → Follow σ α) (h : Hooks σ α) : Prop :=
  ∀ id path s a s', follow σ α h id path s = .ok a s' →
    ∃ n, c.type? id = some n ∧ Follows c n path (fun σ α h => follow σ α h id path)

variable {c : Client} {follow : (σ α : Type) → Hooks σ α → Follow σ α} {σ α : Type} {h : Hooks σ α}

/-- Walking properties goes by plans that stand for them under their names. -/
def FollowsProperties (c : Client) (follow : (σ α : Type) → Hooks σ α → Follow σ α) (ps : List Node) (path : Path) :
    Prop :=
  ∃ qs, Plan.PropertiesAt qs path ∧ qs.map Prod.fst = ps.map (·.info.name) ∧
    ∀ σ α (h : Hooks σ α), walkProperties c h (follow σ α h) path ps = Plan.runProperties h qs

/-- Walking members from a number on goes by plans that stand for them. -/
def FollowsMembers (c : Client) (follow : (σ α : Type) → Hooks σ α → Follow σ α) (ms : List Node) (path : Path)
    (index : Nat) : Prop :=
  ∃ qs, Plan.MembersAt qs path index ∧
    ∀ σ α (h : Hooks σ α), walkMembers c h (follow σ α h) path index ms = Plan.runMembers h qs

/-! ### One node -/

section

variable {origin : Option String} {path : Path} {i : Info} {k : Primitive} {e : Option (List Json)}
  {ps ms : List Node} {ds : List (String × Node)}

/-- **Only what is not to be referenced has to be looked at** by its kind. -/
theorem follows_unless_reference {n : Node} (harray : n.kind? ≠ some .array)
    (h : c.typeReference? n = none → Follows c n path fun σ α h => walkNode c h (follow σ α h) origin n path) :
    Follows c n path fun σ α h => walkNode c h (follow σ α h) origin n path := by
  cases href : c.typeReference? n with
  | some r =>
    exact ⟨.reference n r path, 0, rfl, .reference href harray, fun _ _ _ => walkNode_of_reference href harray⟩
  | none => exact h href

theorem resolve_of_standsFor {n m : Node} {r : String} (hstands : c.standsFor? n = some r) (hm : c.type? r = some m) :
    c.resolve n = m := by
  rw [Client.resolve, hstands, Option.bind_some, hm, Option.getD_some]

/-- A node that stands for no type, or for the one that it is itself, resolves to itself. -/
theorem resolve_itself {n : Node} (horigin : ∀ r, origin = some r → c.type? r = some n)
    (hstands : ∀ r, c.standsFor? n = some r → origin = some r) : c.resolve n = n := by
  cases hs : c.standsFor? n with
  | none =>
    rw [Client.resolve, hs]
    rfl
  | some r => exact resolve_of_standsFor hs (horigin r (hstands r hs))

theorem follows_itself (href : c.typeReference? (.primitive i k e) = none)
    (horigin : ∀ r, origin = some r → c.type? r = some (.primitive i k e))
    (hstands : ∀ r, c.standsFor? (.primitive i k e) = some r → origin = some r) :
    Follows c (.primitive i k e) path fun σ α h => walkNode c h (follow σ α h) origin (.primitive i k e) path :=
  ⟨.primitive i k e path, 0, rfl, .primitive href (resolve_itself horigin hstands),
    fun _ _ _ => walkNode_itself href hstands⟩

/-- **A node that gives way to another type** goes by the plan of that type, and resolves to the same in one step
more. -/
theorem follows_standsFor {r : String} {m : Node} (href : c.typeReference? (.primitive i k e) = none)
    (hstands : c.standsFor? (.primitive i k e) = some r) (ho : origin ≠ some r) (hm : c.type? r = some m)
    (hfollow : Follows c m path fun σ α h => follow σ α h r path) :
    Follows c (.primitive i k e) path fun σ α h => walkNode c h (follow σ α h) origin (.primitive i k e) path := by
  obtain ⟨p, depth, hat, hover, hplan⟩ := hfollow
  refine ⟨p, depth + 1, hat, ?_, fun σ α h => ?_⟩
  · rw [Function.iterate_succ_apply, resolve_of_standsFor hstands hm]
    exact hover
  · exact (walkNode_standsFor href hstands ho).trans (hplan σ α h)

theorem follows_primitive (hfollow : FollowsTypes c follow h)
    (horigin : ∀ r, origin = some r → c.type? r = some (.primitive i k e))
    (href : c.typeReference? (.primitive i k e) = none) {s s' : σ} {a : α}
    (hrun : walkNode c h (follow σ α h) origin (.primitive i k e) path s = .ok a s') :
    Follows c (.primitive i k e) path fun σ α h => walkNode c h (follow σ α h) origin (.primitive i k e) path := by
  -- a type that stands for itself is handed over, any other node gives way to the type
  by_cases hstands : ∃ r, c.standsFor? (.primitive i k e) = some r ∧ origin ≠ some r
  · obtain ⟨r, hs, ho⟩ := hstands
    rw [walkNode_standsFor href hs ho] at hrun
    obtain ⟨m, hm, hfollowed⟩ := hfollow r path _ _ _ hrun
    exact follows_standsFor href hs ho hm hfollowed
  · exact follows_itself href horigin fun r hs => not_not.1 fun ho => hstands ⟨r, hs, ho⟩

theorem follows_array (i : Info) {m : Node} (hm : Follows c m (path ++ [.str "items"]) fun σ α h =>
    walkNode c h (follow σ α h) none m (path ++ [.str "items"])) :
    Follows c (.array i m) path fun σ α h => walkNode c h (follow σ α h) origin (.array i m) path := by
  obtain ⟨p, -, hat, -, hplan⟩ := hm
  refine ⟨.array i p path, 0, ⟨rfl, hat⟩, .array i m, fun σ α h => ?_⟩
  simp only [walkNode, hplan, Plan.run]

theorem follows_object (href : c.typeReference? (.object i ps ds) = none) (hps : FollowsProperties c follow ps path) :
    Follows c (.object i ps ds) path fun σ α h => walkNode c h (follow σ α h) origin (.object i ps ds) path := by
  obtain ⟨qs, hat, hnames, hplan⟩ := hps
  refine ⟨.object i qs path, 0, ⟨rfl, hat⟩, ?_, fun σ α h => ?_⟩
  · rw [Plan.own, hnames]
    exact .object href
  · simp only [walkNode_object href, hplan, Plan.run]

theorem follows_union (href : c.typeReference? (.union i ms e) = none) (hms : FollowsMembers c follow ms path 0) :
    Follows c (.union i ms e) path fun σ α h => walkNode c h (follow σ α h) origin (.union i ms e) path := by
  obtain ⟨qs, hat, hplan⟩ := hms
  refine ⟨.union i e qs path, 0, ⟨rfl, hat⟩, .union href, fun σ α h => ?_⟩
  simp only [walkNode_union href, hplan, Plan.run]

end

/-! ### A tree -/

mutual
/-- **The walk over a node that returns has gone by a plan**, when that holds of the custom types it may follow. -/
theorem walkNode_follows (hfollow : FollowsTypes c follow h) : ∀ {n : Node} {origin : Option String},
    (∀ r, origin = some r → c.type? r = some n) → ∀ {path : Path} {s s' : σ} {a : α},
      walkNode c h (follow σ α h) origin n path s = .ok a s' →
        Follows c n path fun σ α h => walkNode c h (follow σ α h) origin n path
  | .bare i, _, _, _, _, _, _, hrun => by
    refine follows_unless_reference nofun fun href => ?_
    simp only [walkNode, href] at hrun
    cases hrun
  | .primitive i k e, _, horigin, _, _, _, _, hrun =>
    follows_unless_reference nofun fun href => follows_primitive hfollow horigin href hrun
  | .array i m, _, _, _, _, _, _, hrun => by
    rw [walkNode] at hrun
    obtain ⟨b, s', hm, -⟩ := Plan.bind_eq_ok.1 hrun
    exact follows_array i (walkNode_follows hfollow of_no_origin hm)
  | .object i ps ds, _, _, _, _, _, _, hrun => by
    refine follows_unless_reference nofun fun href => ?_
    rw [walkNode_object href] at hrun
    obtain ⟨as, s', hps, -⟩ := Plan.bind_eq_ok.1 hrun
    exact follows_object href (walkProperties_follows hfollow hps)
  | .union i ms e, _, _, _, _, _, _, hrun => by
    refine follows_unless_reference nofun fun href => ?_
    rw [walkNode_union href] at hrun
    obtain ⟨as, s', hms, -⟩ := Plan.bind_eq_ok.1 hrun
    exact follows_union href (walkMembers_follows hfollow hms)
theorem walkProperties_follows (hfollow : FollowsTypes c follow h) :
    ∀ {ps : List Node} {path : Path} {s s' : σ} {as : List (Json × α)},
      walkProperties c h (follow σ α h) path ps s = .ok as s' → FollowsProperties c follow ps path
  | [], _, _, _, _, _ => ⟨[], trivial, rfl, fun σ α h => by rw [walkProperties, Plan.runProperties]⟩
  | p :: ps, path, _, _, _, hrun => by
    rw [walkProperties] at hrun
    obtain ⟨a, s', hp, hrun⟩ := Plan.bind_eq_ok.1 hrun
    obtain ⟨as, s'', hps, -⟩ := Plan.bind_eq_ok.1 hrun
    obtain ⟨q, -, hat, -, hplan⟩ := walkNode_follows hfollow of_no_origin hp
    obtain ⟨qs, hats, hnames, hplans⟩ := walkProperties_follows hfollow hps
    refine ⟨(p.info.name, q) :: qs, ⟨hat, hats⟩, ?_, fun σ α h => ?_⟩
    · rw [List.map_cons, List.map_cons, hnames]
    · simp only [walkProperties, Plan.runProperties, hplan, hplans]
theorem walkMembers_follows (hfollow : FollowsTypes c follow h) :
    ∀ {ms : List Node} {path : Path} {index : Nat} {s s' : σ} {as : List α},
      walkMembers c h (follow σ α h) path index ms s = .ok as s' → FollowsMembers c follow ms path index
  | [], _, _, _, _, _, _ => ⟨[], trivial, fun σ α h => by rw [walkMembers, Plan.runMembers]⟩
  | m :: ms, path, index, _, _, _, hrun => by
    rw [walkMembers] at hrun
    obtain ⟨a, s', hm, hrun⟩ := Plan.bind_eq_ok.1 hrun
    obtain ⟨as, s'', hms, -⟩ := Plan.bind_eq_ok.1 hrun
    obtain ⟨q, -, hat, -, hplan⟩ := walkNode_follows hfollow of_no_origin hm
    obtain ⟨qs, hats, hplans⟩ := walkMembers_follows hfollow hms
    refine ⟨q :: qs, ⟨hat, hats⟩, fun σ α h => ?_⟩
    simp only [walkMembers, Plan.runMembers, hplan, hplans]
end

/-- **A walk that returns has gone by a plan**, by induction on how far it may follow custom types. -/
theorem walkWithin_follows (depth : Nat) : ∀ {n : Node} {origin : Option String},
    (∀ r, origin = some r → c.type? r = some n) → ∀ {path : Path} {s s' : σ} {a : α},
      walkWithin c h depth origin n path s = .ok a s' →
        Follows c n path (fun _ _ h => walkWithin c h depth origin n path) := by
  induction depth with
  | zero =>
    intro n origin horigin path s s' a hrun
    have hfollow : FollowsTypes c (fun _ _ _ _ _ => throw .endlessAlias) h := by
      intro id path s a s' hthrow
      cases hthrow
    exact walkNode_follows hfollow horigin hrun
  | succ depth ih =>
    intro n origin horigin path s s' a hrun
    refine walkNode_follows ?_ horigin hrun
    intro id path s a s' hfollowed
    cases ht : c.type? id with
    | none =>
      simp only [ht] at hfollowed
      cases hfollowed
    | some m =>
      simp only [ht] at hfollowed ⊢
      refine ⟨m, rfl, ih (fun r hr => ?_) hfollowed⟩
      cases hr
      exact ht

/-- **The calls of a walk are told apart by their paths**, with any client, from any node and with any hooks with which
it returns.  The last call is at the path of the walk, for its node or what that resolves to, and all others are behind
that path.  When the properties of each object that is handed over have different names, no two calls have the same
path, and a call whose path goes on from that of another one comes before it. -/
theorem walk_paths {n : Node} {path : Path} {s s' : σ} {a : α} (hwalk : walk c h n path s = .ok a s') :
    ∃ calls, walk c h.logged n path (s, []) = .ok a (s', calls) ∧
      (∃ before last k, calls = before ++ [last] ∧ last.path = path ∧ HandedOver c path (c.resolve^[k] n) last ∧
        ∀ call ∈ before, path <+: call.path ∧ call.path ≠ path) ∧
      (DistinctNames calls → (calls.map HookCall.path).Nodup ∧
        ∀ (i j : Nat) (call other : HookCall), calls[i]? = some call → calls[j]? = some other →
          other.path <+: call.path → other.path ≠ call.path → i < j) := by
  obtain ⟨p, k, hat, hover, hplan⟩ := walkWithin_follows _ of_no_origin hwalk
  have hrun : p.run h s = .ok a s' := (congrFun (hplan σ α h) s).symm.trans hwalk
  have hlogged := (congrFun (hplan _ α h.logged) (s, [])).trans (p.run_logged h hrun [])
  have hbehind : ∀ call ∈ p.inner, path <+: call.path ∧ call.path ≠ path := fun call hcall => by
    obtain ⟨step, hstep⟩ := p.child_of_mem_inner hat call hcall
    exact ⟨prefix_of_child hstep, fun he => not_prefix_of_child hstep (by rw [he])⟩
  refine ⟨p.calls, hlogged, ⟨p.inner, p.own, k, p.calls_eq, Plan.path_own hat, hover, hbehind⟩, fun hnames => ?_⟩
  have hup := Plan.bottomUp_of_inner hat (p.bottomUp_inner hat hnames)
  exact ⟨hup.nodup, fun i j call other => hup.lt⟩

/-- A client with a custom type that stands for another one, all written out in place. -/
def pairs : Client where
  options := { defSupport := .bool false }
  types := [(.key "Pair", .primitive { name := .str "Pair", refName := some "Choice" } .any none),
    (.key "Choice", .union { name := .str "Choice" } [.primitive {} .string none,
      .object {} [.primitive { name := .str "items" } .integer none] []] none)]

/-- Properties that are named as the steps to items and members are. -/
def pairsEvent : Node :=
  .object {} [.array { name := .str "items" } (.primitive { refName := some "Pair" } .any none),
    .primitive { name := .str "0", refName := some "Pair" } .any none] []

/-- The plan for the second type. -/
def choicePlan (path : Path) : Plan :=
  .union { name := .str "Choice" } none [.primitive {} .string none (path ++ [.str "0"]),
    .object {}
      [(.str "items", .primitive { name := .str "items" } .integer none (path ++ [.str "1"] ++ [.str "items"]))]
      (path ++ [.str "1"])] path

def pairsPlan : Plan :=
  .object {} [(.str "items", .array { name := .str "items" } (choicePlan [.str "items", .str "items"]) [.str "items"]),
    (.str "0", choicePlan [.str "0"])] []

theorem walk_pairs : walk pairs Plan.recorder pairsEvent [] () = .ok pairsPlan () := by rfl

/-- Items, members and properties of the same names are walked at different paths. -/
theorem walk_paths_pairs :
    walk pairs Plan.recorder pairsEvent [] () = .ok pairsPlan () ∧ DistinctNames pairsPlan.calls ∧
      (pairsPlan.calls.map HookCall.path).Nodup ∧
      ∃ before last, pairsPlan.calls = before ++ [last] ∧ last.path = [] := by
  have hnames : DistinctNames pairsPlan.calls := by
    intro i names path h
    simp only [pairsPlan, choicePlan, Plan.calls, Plan.callsOfProperties, Plan.callsOfMembers, List.map_cons,
      List.map_nil, List.append_nil, List.nil_append, List.cons_append, List.mem_cons, List.not_mem_nil, or_false,
      HookCall.object.injEq, reduceCtorEq, false_or] at h
    rcases h with ⟨-, rfl, -⟩ | ⟨-, rfl, -⟩ | ⟨-, rfl, -⟩ <;> simp
  obtain ⟨calls, hlogged, ⟨before, last, k, hlast, hpath, -⟩, hdistinct⟩ := walk_paths walk_pairs
  have hcalls : pairsPlan.calls = calls := by
    have hrun : walk pairs Plan.recorder.logged pairsEvent [] ((), []) = .ok pairsPlan ((), pairsPlan.calls) := by rfl
    exact congrArg Prod.snd (EStateM.Result.ok.inj (hrun.symm.trans hlogged)).2
  subst hcalls
  exact ⟨walk_pairs, hnames, (hdistinct hnames).1, before, last, hlast, hpath⟩

end Walk
end TrackingPlan
