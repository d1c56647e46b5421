import TrackingPlan.Emission.Preview
import TrackingPlan.Proofs.Emission.Plan
import TrackingPlan.Proofs.Naming.Run
import TrackingPlan.Proofs.Text.Quoted
/-!
# Preview — the names in a preview

A preview is its plan with names in it (`Plan.preview`), and these are the ones that the namer holds for the ids in the
end: no name changes once it is given out (`run_hooks`).  Ids of different paths, properties and references are
different, so the names are `Unambiguous`.
-/
namespace TrackingPlan

/-! ## Namers that go on -/

namespace Namer

/-- All names of the other namer are still given out under their ids. -/
def Extends (n' n : Namer) : Prop := ∀ id s m, n.lookup id s = some m → n'.lookup id s = some m

/-- **A namer after some registrations.** -/
structure Step (n n' : Namer) : Prop where
  orderly : n'.Orderly
  keeps : n'.Extends n

theorem Step.refl {n : Namer} (h : n.Orderly) : n.Step n := ⟨h, fun _ _ _ hm => hm⟩

theorem Extends.trans {n n' n'' : Namer} (h : n''.Extends n') (h' : n'.Extends n) : n''.Extends n :=
  fun id s m hm => h id s m (h' id s m hm)

theorem Step.trans {n n' n'' : Namer} (h : n.Step n') (h' : n'.Step n'') : n.Step n'' :=
  ⟨h'.orderly, h'.keeps.trans h.keeps⟩

theorem step_register {n : Namer} (h : n.Orderly) (id name s : String) : n.Step (n.register id name s).2 :=
  ⟨h.register id name s, fun _ _ _ hm => lookup_register_of_lookup hm⟩

end Namer

open Walk (Path HookCall Plan)

/-- Values that are all texts. -/
def AllTexts (vs : List Json) : Prop := ∃ ts : List String, vs = ts.map .str

theorem allTexts_iff {vs : List Json} : AllTexts vs ↔ ∀ v ∈ vs, ∃ t, v = .str t := by
  constructor
  · rintro ⟨ts, rfl⟩ v hv
    obtain ⟨t, -, rfl⟩ := List.mem_map.1 hv
    exact ⟨t, rfl⟩
  · intro h
    induction vs with
    | nil => exact ⟨[], rfl⟩
    | cons v vs ih =>
      obtain ⟨t, rfl⟩ := h v List.mem_cons_self
      obtain ⟨ts, rfl⟩ := ih (fun w hw => h w (List.mem_cons_of_mem _ hw))
      exact ⟨t :: ts, rfl⟩

theorem AllTexts.concat {vs : List Json} (h : AllTexts vs) (t : String) : AllTexts (vs ++ [.str t]) := by
  obtain ⟨ts, rfl⟩ := h
  exact ⟨ts ++ [t], by rw [List.map_append, List.map_singleton]⟩

/-! ## Paths of texts -/

namespace Walk

namespace Plan

/-- **The properties of every object that is walked have different texts for names.** -/
def Distinct (p : Plan) : Prop := ∀ i names path, .object i names path ∈ p.calls → AllTexts names ∧ names.Nodup

/-- **An object whose path gives no text has a text for its own name.** -/
def OwnNamed (p : Plan) : Prop :=
  ∀ i names path, .object i names path ∈ p.calls → joinPath " " path = .ok "" → ∃ t, i.name = .str t

mutual
/-- Where all properties have texts for names, all paths are texts. -/
theorem allTexts_path : ∀ (p : Plan) {path : Path}, p.At path → AllTexts path →
    (∀ i names q, .object i names q ∈ p.calls → AllTexts names) → ∀ call ∈ p.calls, AllTexts call.path
  | .primitive .., _, hat, hpath, _, call, hcall => by
    cases hat
    rw [List.mem_singleton.1 hcall]
    exact hpath
  | .array i p path, _, hat, hpath, hnames, call, hcall => by
    obtain ⟨rfl, hat⟩ := hat
    rw [calls] at hnames hcall
    rcases List.mem_append.1 hcall with hcall | hcall
    · exact allTexts_path p hat (hpath.concat _) (fun i ns q hq => hnames i ns q (List.mem_append_left _ hq)) call hcall
    · rw [List.mem_singleton.1 hcall]
      exact hpath
  | .object i ps path, _, hat, hpath, hnames, call, hcall => by
    obtain ⟨rfl, hat⟩ := hat
    rw [calls] at hnames hcall
    rcases List.mem_append.1 hcall with hcall | hcall
    · exact allTexts_properties ps hat hpath (hnames i _ path (List.mem_append_right _ List.mem_cons_self))
        (fun i ns q hq => hnames i ns q (List.mem_append_left _ hq)) call hcall
    · rw [List.mem_singleton.1 hcall]
      exact hpath
  | .union i e ms path, _, hat, hpath, hnames, call, hcall => by
    obtain ⟨rfl, hat⟩ := hat
    rw [calls] at hnames hcall
    rcases List.mem_append.1 hcall with hcall | hcall
    · exact allTexts_members ms hat hpath (fun i ns q hq => hnames i ns q (List.mem_append_left _ hq)) call hcall
    · rw [List.mem_singleton.1 hcall]
      exact hpath
  | .reference .., _, hat, hpath, _, call, hcall => by
    cases hat
    rw [List.mem_singleton.1 hcall]
    exact hpath
theorem allTexts_properties : ∀ (ps : List (Json × Plan)) {path : Path}, PropertiesAt ps path → AllTexts path →
    AllTexts (ps.map Prod.fst) → (∀ i names q, .object i names q ∈ callsOfProperties ps → AllTexts names) →
      ∀ call ∈ callsOfProperties ps, AllTexts call.path
  | [], _, _, _, _, _, _, hcall => by cases hcall
  | (name, p) :: ps, _, hat, hpath, htexts, hnames, call, hcall => by
    obtain ⟨hat, hats⟩ := hat
    have htexts := allTexts_iff.1 htexts
    obtain ⟨t, rfl⟩ := htexts name List.mem_cons_self
    rw [callsOfProperties] at hnames hcall
    rcases List.mem_append.1 hcall with hcall | hcall
    · exact allTexts_path p hat (hpath.concat t) (fun i ns q hq => hnames i ns q (List.mem_append_left _ hq)) call hcall
    · exact allTexts_properties ps hats hpath (allTexts_iff.2 fun v hv => htexts v (List.mem_cons_of_mem _ hv))
        (fun i ns q hq => hnames i ns q (List.mem_append_right _ hq)) call hcall
theorem allTexts_members : ∀ (ms : List Plan) {path : Path} {index : Nat}, MembersAt ms path index → AllTexts path →
    (∀ i names q, .object i names q ∈ callsOfMembers ms → AllTexts names) →
      ∀ call ∈ callsOfMembers ms, AllTexts call.path
  | [], _, _, _, _, _, _, hcall => by cases hcall
  | p :: ms, _, _, hat, hpath, hnames, call, hcall => by
    obtain ⟨hat, hats⟩ := hat
    rw [callsOfMembers] at hnames hcall
    rcases List.mem_append.1 hcall with hcall | hcall
    · exact allTexts_path p hat (hpath.concat _) (fun i ns q hq => hnames i ns q (List.mem_append_left _ hq)) call hcall
    · exact allTexts_members ms hats hpath (fun i ns q hq => hnames i ns q (List.mem_append_right _ hq)) call hcall
end

end Plan
end Walk

/-! ## Ids -/

namespace Preview

theorem typeId_injective {p q : Path} (hp : AllTexts p) (hq : AllTexts q) (h : typeId p = typeId q) : p = q := by
  obtain ⟨ts, rfl⟩ := hp
  obtain ⟨us, rfl⟩ := hq
  have hlist := @Json.tupleText_injective "type" "type" ts us h
  rw [(List.cons.inj hlist).2]

theorem typeId_ne_referenceId {p : Path} (hp : AllTexts p) (id : String) : typeId p ≠ referenceId id := by
  obtain ⟨ts, rfl⟩ := hp
  intro h
  have hlist := @Json.tupleText_injective "type" "ref" ts [id] h
  exact absurd (List.cons.inj hlist).1 (by decide)

theorem referenceId_injective {id id' : String} (h : referenceId id = referenceId id') : id = id' := by
  have hlist := @Json.tupleText_injective "ref" "ref" [id] [id'] h
  exact (List.cons.inj (List.cons.inj hlist).2).1

theorem propertyId_injective {p : Path} (hp : AllTexts p) {t u : String}
    (h : propertyId p (.str t) = propertyId p (.str u)) : t = u := by
  obtain ⟨ts, rfl⟩ := hp
  have htuple : ∀ v, (Json.str "property" :: (ts.map .str ++ [.str v])) = ("property" :: (ts ++ [v])).map .str := by
    intro v
    rw [List.map_cons, List.map_append, List.map_singleton]
  unfold propertyId at h
  rw [htuple, htuple] at h
  have hlist := List.append_cancel_left (List.cons.inj (Json.tupleText_injective h)).2
  exact (List.cons.inj hlist).1

/-! ## Names in a plan -/

/-- **A choice of names**: for the object at a path, for its properties, and for references. -/
structure Names where
  type : Path → String
  property : Path → Json → String
  reference : String → String

end Preview

namespace Walk.Plan

mutual
/-- **A plan with names in it.** -/
def preview (N : Preview.Names) : Plan → Preview
  | .primitive _ k _ _ => .kind k
  | .array _ a _ => .array (preview N a)
  | .object _ ps path => .object (N.type path) ((contexts N ps).map (fun e => (N.property path e.1, e.2)))
  | .union _ _ ms _ => .union (previews N ms)
  | .reference _ id _ => .reference (N.reference id)
/-- Properties with the previews of their values. -/
def contexts (N : Preview.Names) : List (Json × Plan) → List (Json × Preview)
  | [] => []
  | (name, p) :: ps => (name, preview N p) :: contexts N ps
def previews (N : Preview.Names) : List Plan → List Preview
  | [] => []
  | p :: ps => preview N p :: previews N ps
end

end Walk.Plan

namespace Preview

/-- **The names tell apart what they name**: the properties of an object, the objects at different paths, objects and
references, and references to different custom types. -/
structure Names.Unambiguous (N : Names) (calls : List HookCall) : Prop where
  properties : ∀ i names path, .object i names path ∈ calls → (names.map (N.property path)).Nodup
  types : ∀ i names p j others q, .object i names p ∈ calls → .object j others q ∈ calls → p ≠ q → N.type p ≠ N.type q
  apart : ∀ i names path n id q, .object i names path ∈ calls → .reference n id q ∈ calls → N.type path ≠ N.reference id
  references : ∀ m id p n id' q, .reference m id p ∈ calls → .reference n id' q ∈ calls →
    (N.reference id = N.reference id' ↔ id = id')

/-- The names that a namer holds. -/
def namesOf (n : Namer) : Names where
  type path := (n.lookup (typeId path) typeScope).getD ""
  property path name :=
    (n.lookup (propertyId path name) (propertyScope ((n.lookup (typeId path) typeScope).getD ""))).getD ""
  reference id := (n.lookup (referenceId id) typeScope).getD ""

/-- What names can be given for: an object at a path of texts, whose properties have different texts for names; where
the path is empty, the object is named by its own name, which is a text then. -/
def Nameable : HookCall → Prop
  | .object i names path =>
    AllTexts path ∧ AllTexts names ∧ names.Nodup ∧ (Walk.joinPath " " path = .ok "" → ∃ t, i.name = .str t)
  | _ => True

/-- All ids that a call asks for have names. -/
def Named (n : Namer) : HookCall → Prop
  | .object _ names path => ∃ t, n.lookup (typeId path) typeScope = some t ∧
      ∀ name ∈ names, ∃ m, n.lookup (propertyId path name) (propertyScope t) = some m
  | .reference _ id _ => ∃ t, n.lookup (referenceId id) typeScope = some t
  | _ => True

variable {n n' : Namer}

theorem Named.mono {call : HookCall} (h : Named n call) (hn : n'.Extends n) : Named n' call := by
  cases call with
  | object i names path =>
    obtain ⟨t, ht, hnames⟩ := h
    refine ⟨t, hn _ _ _ ht, fun name hname => ?_⟩
    obtain ⟨m, hm⟩ := hnames name hname
    exact ⟨m, hn _ _ _ hm⟩
  | reference node id path =>
    obtain ⟨t, ht⟩ := h
    exact ⟨t, hn _ _ _ ht⟩
  | _ => trivial

/-- **Different properties have different names.** -/
theorem nodup_property (hn : n.Orderly) {i : Info} {names : List Json} {path : Path}
    (hcall : Nameable (.object i names path)) (hnamed : Named n (.object i names path)) :
    (names.map ((namesOf n).property path)).Nodup := by
  obtain ⟨hpath, hnames, hnodup, -⟩ := hcall
  obtain ⟨t, ht, hheld⟩ := hnamed
  refine hnodup.map_on fun v hv w hw he => ?_
  obtain ⟨m, hm⟩ := hheld v hv
  obtain ⟨m', hm'⟩ := hheld w hw
  simp only [namesOf, ht, Option.getD_some, hm, hm'] at he
  subst he
  obtain ⟨a, rfl⟩ := allTexts_iff.1 hnames v hv
  obtain ⟨b, rfl⟩ := allTexts_iff.1 hnames w hw
  rw [propertyId_injective hpath (hn.injective _ _ _ _ hm hm')]

/-- **The names that a namer holds for calls** tell apart what they name. -/
theorem unambiguous (hn : n.Orderly) {calls : List HookCall} (hcalls : ∀ call ∈ calls, Nameable call)
    (hnamed : ∀ call ∈ calls, Named n call) : (namesOf n).Unambiguous calls where
  properties i names path h := nodup_property hn (hcalls _ h) (hnamed _ h)
  types i names p j others q hp hq hpq he := by
    obtain ⟨t, ht, -⟩ := hnamed _ hp
    obtain ⟨u, hu, -⟩ := hnamed _ hq
    simp only [namesOf, ht, hu, Option.getD_some] at he
    subst he
    exact hpq (typeId_injective (hcalls _ hp).1 (hcalls _ hq).1 (hn.injective _ _ _ _ ht hu))
  apart i names path m id q hp hq he := by
    obtain ⟨t, ht, -⟩ := hnamed _ hp
    obtain ⟨u, hu⟩ := hnamed _ hq
    simp only [namesOf, ht, hu, Option.getD_some] at he
    subst he
    exact typeId_ne_referenceId (hcalls _ hp).1 id (hn.injective _ _ _ _ ht hu)
  references m id p n' id' q hp hq := by
    obtain ⟨t, ht⟩ := hnamed _ hp
    obtain ⟨u, hu⟩ := hnamed _ hq
    refine ⟨fun he => ?_, fun he => by rw [he]⟩
    simp only [namesOf, ht, hu, Option.getD_some] at he
    subst he
    exact referenceId_injective (hn.injective _ _ _ _ ht hu)

/-! ## Hooks -/

theorem joinPath_texts (between : String) (ts : List String) :
    Walk.joinPath between (ts.map .str) = .ok (between.intercalate ts) := by
  have hsteps : (ts.map Json.str).mapM Walk.stepText = .ok ts := by
    induction ts with
    | nil => rfl
    | cons t ts ih => rw [List.map_cons, List.mapM_cons, ih]; rfl
  unfold Walk.joinPath
  rw [hsteps]
  rfl

/-- The object of a nameable call has a text to be named by. -/
theorem typeText_ok {i : Info} {names : List Json} {path : Path} (h : Nameable (.object i names path)) :
    ∃ text, typeText i path = .ok text := by
  obtain ⟨⟨ts, rfl⟩, -, -, hown⟩ := h
  rw [joinPath_texts] at hown
  unfold typeText
  rw [joinPath_texts]
  show ∃ text, (if String.intercalate " " ts = "" then ownText i.name else .ok (String.intercalate " " ts)) = .ok text
  split
  · next hempty =>
    obtain ⟨t, ht⟩ := hown (by rw [hempty])
    exact ⟨t, by rw [ht]; rfl⟩
  · exact ⟨_, rfl⟩

theorem registerText_ok (id name s : String) (n : Namer) :
    registerText id name s n = .ok (n.register id name s).1 (n.register id name s).2 := rfl

theorem nameProperties_ok (path : Path) (s : String) : ∀ (as : List (Json × Preview)) {n : Namer}, n.Orderly →
    AllTexts (as.map Prod.fst) → ∃ named n', nameProperties path s as n = .ok named n' ∧ n.Step n' ∧
      (∀ name ∈ as.map Prod.fst, ∃ m, n'.lookup (propertyId path name) s = some m) ∧
      ∀ n'' : Namer, n''.Extends n' → named = as.map (fun e => ((n''.lookup (propertyId path e.1) s).getD "", e.2))
  | [], n, hn, _ => ⟨[], n, rfl, .refl hn, List.forall_mem_nil _, fun _ _ => rfl⟩
  | (name, p) :: as, n, hn, htexts => by
    have htexts := allTexts_iff.1 htexts
    obtain ⟨t, rfl⟩ := htexts name List.mem_cons_self
    have hstep := Namer.step_register hn (propertyId path (.str t)) t s
    obtain ⟨named, n', hrun, hstep', hheld, hnamed⟩ := nameProperties_ok path s as hstep.orderly
      (allTexts_iff.2 fun v hv => htexts v (List.mem_cons_of_mem _ hv))
    have hgiven := hstep'.keeps _ _ _ Namer.lookup_register_self
    refine ⟨((n.register (propertyId path (.str t)) t s).1, p) :: named, n', ?_, hstep.trans hstep', ?_, ?_⟩
    · rw [nameProperties]
      exact Plan.bind_eq_ok.2 ⟨_, _, registerText_ok .., Plan.bind_eq_ok.2 ⟨named, n', hrun, rfl⟩⟩
    · exact List.forall_mem_cons.2 ⟨⟨_, hgiven⟩, hheld⟩
    · intro n'' hn''
      rw [List.map_cons, ← hnamed n'' hn'', hn'' _ _ _ hgiven]
      rfl

theorem objectHook_ok (hn : n.Orderly) {i : Info} {as : List (Json × Preview)} {path : Path}
    (hcall : Nameable (.object i (as.map Prod.fst) path)) :
    ∃ a n', objectHook i as path n = .ok a n' ∧ n.Step n' ∧ Named n' (.object i (as.map Prod.fst) path) ∧
      ∀ n'' : Namer, n''.Extends n' →
        a = .object ((namesOf n'').type path) (as.map (fun e => ((namesOf n'').property path e.1, e.2))) := by
  obtain ⟨text, htext⟩ := typeText_ok hcall
  have hstep := Namer.step_register hn (typeId path) (typeNameOf text) typeScope
  have htype := @Namer.lookup_register_self n (typeId path) (typeNameOf text) typeScope
  generalize hreg : n.register (typeId path) (typeNameOf text) typeScope = given at hstep htype
  obtain ⟨typeName, n₁⟩ := given
  obtain ⟨named, n', hrun, hstep', hheld, hnamed⟩ :=
    nameProperties_ok path (propertyScope typeName) as hstep.orderly hcall.2.1
  have hcalled : Named n' (.object i (as.map Prod.fst) path) := ⟨typeName, hstep'.keeps _ _ _ htype, hheld⟩
  have hentries : ∀ n'' : Namer, n''.Extends n' →
      named = as.map (fun e => ((namesOf n'').property path e.1, e.2)) := fun n'' hn'' => by
    rw [hnamed n'' hn'']
    simp only [namesOf, hn'' _ _ _ (hstep'.keeps _ _ _ htype), Option.getD_some]
  -- no entry of the table is written over another, since the namer keeps the names apart
  have hkeys : (named.map Prod.fst).Nodup := by
    have hmap : named.map Prod.fst = (as.map Prod.fst).map ((namesOf n').property path) := by
      rw [hentries n' (fun _ _ _ hm => hm), List.map_map, List.map_map]
      rfl
    rw [hmap]
    exact nodup_property hstep'.orderly hcall hcalled
  refine ⟨.object typeName named, n', ?_, hstep.trans hstep', hcalled, fun n'' hn'' => ?_⟩
  · unfold objectHook
    rw [htext]
    refine Plan.bind_eq_ok.2 ⟨typeName, n₁, ?_, Plan.bind_eq_ok.2 ⟨named, n', hrun, ?_⟩⟩
    · rw [registerText_ok, hreg]
    · rw [Table.ofEntries_of_nodup hkeys]
      rfl
  · rw [← hentries n'' hn'']
    simp only [namesOf, hn'' _ _ _ (hstep'.keeps _ _ _ htype), Option.getD_some]

/-! ## Whole plans -/

mutual
/-- **A preview is its plan with the names that the namer holds in the end**, and later on. -/
theorem run_hooks : ∀ (p : Plan) {n : Namer}, n.Orderly → (∀ call ∈ p.calls, Nameable call) →
    ∃ a n', p.run hooks n = .ok a n' ∧ n.Step n' ∧ (∀ call ∈ p.calls, Named n' call) ∧
      ∀ n'' : Namer, n''.Extends n' → a = p.preview (namesOf n'')
  | .primitive i k e path, n, hn, _ =>
    ⟨.kind k, n, rfl, .refl hn, List.forall_mem_singleton.2 trivial, fun _ _ => rfl⟩
  | .array i p path, n, hn, hcalls => by
    rw [Plan.calls, List.forall_mem_append] at hcalls
    obtain ⟨a, n', hrun, hstep, hnamed, ha⟩ := run_hooks p hn hcalls.1
    refine ⟨.array a, n', ?_, hstep, ?_, fun n'' hn'' => ?_⟩
    · rw [Plan.run]
      exact Plan.bind_eq_ok.2 ⟨a, n', hrun, rfl⟩
    · rw [Plan.calls, List.forall_mem_append]
      exact ⟨hnamed, List.forall_mem_singleton.2 trivial⟩
    · rw [Plan.preview, ← ha n'' hn'']
  | .object i ps path, n, hn, hcalls => by
    rw [Plan.calls, List.forall_mem_append, List.forall_mem_singleton] at hcalls
    obtain ⟨as, n₁, hrun, hstep, hnamed, has⟩ := runProperties_hooks ps hn hcalls.1
    -- the hook sees the results of the properties, which come with just the names of the plan
    have hnames := Plan.map_fst_of_runProperties hrun
    have hcall := hcalls.2
    rw [← hnames] at hcall
    obtain ⟨a, n', hhook, hstep', hcalled, ha⟩ := objectHook_ok hstep.orderly hcall
    refine ⟨a, n', ?_, hstep.trans hstep', ?_, fun n'' hn'' => ?_⟩
    · rw [Plan.run]
      exact Plan.bind_eq_ok.2 ⟨as, n₁, hrun, hhook⟩
    · rw [Plan.calls, List.forall_mem_append, List.forall_mem_singleton, ← hnames]
      exact ⟨fun call h => (hnamed call h).mono hstep'.keeps, hcalled⟩
    · rw [Plan.preview, ← has n'' (hn''.trans hstep'.keeps)]
      exact ha n'' hn''
  | .union i e ms path, n, hn, hcalls => by
    rw [Plan.calls, List.forall_mem_append] at hcalls
    obtain ⟨as, n', hrun, hstep, hnamed, has⟩ := runMembers_hooks ms hn hcalls.1
    refine ⟨.union as, n', ?_, hstep, ?_, fun n'' hn'' => ?_⟩
    · rw [Plan.run]
      exact Plan.bind_eq_ok.2 ⟨as, n', hrun, rfl⟩
    · rw [Plan.calls, List.forall_mem_append]
      exact ⟨hnamed, List.forall_mem_singleton.2 trivial⟩
    · rw [Plan.preview, ← has n'' hn'']
  | .reference node id path, n, hn, _ => by
    have hheld := @Namer.lookup_register_self n (referenceId id) (Casing.pascal.convert id) typeScope
    refine ⟨.reference (n.register (referenceId id) (Casing.pascal.convert id) typeScope).1, _, rfl,
      Namer.step_register hn _ _ _, List.forall_mem_singleton.2 ⟨_, hheld⟩, fun n'' hn'' => ?_⟩
    rw [Plan.preview]
    simp only [namesOf, hn'' _ _ _ hheld, Option.getD_some]
theorem runProperties_hooks : ∀ (ps : List (Json × Plan)) {n : Namer}, n.Orderly →
    (∀ call ∈ Plan.callsOfProperties ps, Nameable call) →
      ∃ as n', Plan.runProperties hooks ps n = .ok as n' ∧ n.Step n' ∧
        (∀ call ∈ Plan.callsOfProperties ps, Named n' call) ∧
        ∀ n'' : Namer, n''.Extends n' → as = Plan.contexts (namesOf n'') ps
  | [], n, hn, _ => ⟨[], n, rfl, .refl hn, List.forall_mem_nil _, fun _ _ => rfl⟩
  | (name, p) :: ps, n, hn, hcalls => by
    rw [Plan.callsOfProperties, List.forall_mem_append] at hcalls
    obtain ⟨a, n₁, hrun, hstep, hnamed, ha⟩ := run_hooks p hn hcalls.1
    obtain ⟨as, n', hruns, hstep', hnameds, has⟩ := runProperties_hooks ps hstep.orderly hcalls.2
    refine ⟨(name, a) :: as, n', ?_, hstep.trans hstep', ?_, fun n'' hn'' => ?_⟩
    · rw [Plan.runProperties]
      exact Plan.bind_eq_ok.2 ⟨a, n₁, hrun, Plan.bind_eq_ok.2 ⟨as, n', hruns, rfl⟩⟩
    · rw [Plan.callsOfProperties, List.forall_mem_append]
      exact ⟨fun call h => (hnamed call h).mono hstep'.keeps, hnameds⟩
    · rw [Plan.contexts, ← ha n'' (hn''.trans hstep'.keeps), ← has n'' hn'']
theorem runMembers_hooks : ∀ (ms : List Plan) {n : Namer}, n.Orderly →
    (∀ call ∈ Plan.callsOfMembers ms, Nameable call) →
      ∃ as n', Plan.runMembers hooks ms n = .ok as n' ∧ n.Step n' ∧ (∀ call ∈ Plan.callsOfMembers ms, Named n' call) ∧
        ∀ n'' : Namer, n''.Extends n' → as = Plan.previews (namesOf n'') ms
  | [], n, hn, _ => ⟨[], n, rfl, .refl hn, List.forall_mem_nil _, fun _ _ => rfl⟩
  | p :: ms, n, hn, hcalls => by
    rw [Plan.callsOfMembers, List.forall_mem_append] at hcalls
    obtain ⟨a, n₁, hrun, hstep, hnamed, ha⟩ := run_hooks p hn hcalls.1
    obtain ⟨as, n', hruns, hstep', hnameds, has⟩ := runMembers_hooks ms hstep.orderly hcalls.2
    refine ⟨a :: as, n', ?_, hstep.trans hstep', ?_, fun n'' hn'' => ?_⟩
    · rw [Plan.runMembers]
      exact Plan.bind_eq_ok.2 ⟨a, n₁, hrun, Plan.bind_eq_ok.2 ⟨as, n', hruns, rfl⟩⟩
    · rw [Plan.callsOfMembers, List.forall_mem_append]
      exact ⟨fun call h => (hnamed call h).mono hstep'.keeps, hnameds⟩
    · rw [Plan.previews, ← ha n'' (hn''.trans hstep'.keeps), ← has n'' hn'']
end

/-- **A plan is previewed with unambiguous names**, by hooks that begin with an orderly namer. -/
theorem preview_of_plan {n : Namer} (hn : n.Orderly) {p : Plan} {path : Path} (hat : p.At path) (hpath : AllTexts path)
    (hdistinct : p.Distinct) (hown : p.OwnNamed) :
    ∃ N n', p.run hooks n = .ok (p.preview N) n' ∧ N.Unambiguous p.calls := by
  have hpaths := p.allTexts_path hat hpath (fun i names q hq => (hdistinct i names q hq).1)
  have hcalls : ∀ call ∈ p.calls, Nameable call := fun call hcall => by
    cases call with
    | object i names q =>
      obtain ⟨htexts, hnodup⟩ := hdistinct i names q hcall
      exact ⟨hpaths _ hcall, htexts, hnodup, hown i names q hcall⟩
    | _ => trivial
  obtain ⟨a, n', hrun, hstep, hnamed, ha⟩ := run_hooks p hn hcalls
  refine ⟨namesOf n', n', ?_, unambiguous hstep.orderly hcalls hnamed⟩
  rw [hrun, ha n' (fun _ _ _ hm => hm)]

end Preview
end TrackingPlan
