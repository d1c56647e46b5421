import TrackingPlan.Proofs.Parser.Course
/-!
# Keeps — a parse keeps to its course

There is one statement for each part of a parse, in terms of the site it stands at.  What the shape of a value keeps
to is assumed for smaller values (`ShapeKeeps`) and then shown for all; `script_keeps` says it of a whole parse.
-/
namespace TrackingPlan
namespace Parser

open Keywords (Members)
open Script (Request Spec)
open Site

variable {linked : Bool}

/-- **What the shape of a value keeps to** as a schema that stands at a site. -/
def ShapeKeeps (linked : Bool) (v : Json) (shape : Shape) : Prop :=
  ∀ (s : Site) (ms : Members) (ts : List RawType), v = .obj ms → s.raw = v → s.types = .ok ts →
    Spec (s.Asked linked) (s.Blamed linked) (shape ts s.place)
      (fun rs n => (∀ t ∈ ts, InOrder linked ms s.place rs t) ∧ NamedBy rs n)

/-- What a part keeps to when it is parsed in full. -/
def PartKeeps (linked : Bool) (p : Part) : Prop :=
  ∀ (name : Json) (isRequired : Bool) (place : Location),
    Spec (Asked linked ⟨p.raw, false, place⟩) (Blamed linked ⟨p.raw, false, place⟩) (parsePart p name isRequired place)
      (fun rs n => Settled linked ⟨p.raw, false, place⟩ rs ∧ NamedBy rs n)

theorem typesAt_keeps {s : Site} {ms : Members} (hr : s.raw = .obj ms) (hu : s.untyped = false) :
    Spec (s.Asked linked) (s.Blamed linked) (typesAt ms s.place) (fun rs ts => rs = [] ∧ s.types = .ok ts) := by
  have hts : s.types = Keywords.types ms := by simp [Site.types, hr, hu]
  unfold typesAt
  split
  · next ts h => exact ⟨rfl, hts.trans h⟩
  · next v h => exact ⟨s, .refl, .unsupported (hts.trans h)⟩

theorem partKeeps_of_shape {p : Part} (h : ShapeKeeps linked p.raw p.shape) : PartKeeps linked p := by
  intro name isRequired place
  unfold parsePart
  split
  · next ms hms =>
    have hr : (⟨p.raw, false, place⟩ : Site).raw = .obj ms := hms
    have href : (⟨p.raw, false, place⟩ : Site).reference? = Keywords.reference? ms := by simp [Site.reference?, hms]
    refine Spec.bind (Q := fun rs _ => ∀ ref, Keywords.reference? ms = some ref → .reference ref place ∈ rs) ?_ ?_
    · unfold follow
      split
      · next ref hm =>
        exact ⟨⟨_, .refl, .reference (href.trans hm)⟩, fun ref' hm' => by
          rw [hm] at hm'; cases hm'; exact List.mem_singleton_self _⟩
      · next hm => exact fun ref hm' => by rw [hm] at hm'; cases hm'
    · intro rs _ hrs
      refine (typesAt_keeps hr rfl).bind ?_
      rintro _ ts ⟨rfl, hts⟩
      refine (h _ ms ts hms rfl hts).bind ?_
      rintro rs' n ⟨hin, hn⟩
      have hsub : ∀ q ∈ rs', q ∈ rs ++ ([] ++ (rs' ++ [])) := fun q hq => by simp [hq]
      refine ⟨.of_types hr hts (fun t ht => inOrder_grows t _ _ (hin t ht) hsub) (fun ref hm => ?_),
        (namedBy_grows n _ _ hn hsub).describe _ _ _ (fun ref hm => ⟨place, ?_⟩)⟩
      · exact List.mem_append_left _ (hrs ref (href.symm.trans hm))
      · exact List.mem_append_left _ (hrs ref hm)
  · next found hf =>
    have hobj : p.raw.isObject = false := by
      cases hp : p.raw with
      | obj ms => exact absurd hp (hf ms)
      | _ => rfl
    exact ⟨_, .refl, .notSchema hobj⟩

theorem partKeeps_view {v : Json} (h : ShapeKeeps linked v (view linked v).shape) :
    PartKeeps linked (view linked v).toPart :=
  partKeeps_of_shape (by rw [view_raw]; exact h)

theorem PartKeeps.at_child {p : Part} (h : PartKeeps linked p) {s : Site} {place : Location}
    (hc : s.Child linked ⟨p.raw, false, place⟩) (name : Json) (isRequired : Bool) :
    Spec (s.Asked linked) (s.Blamed linked) (parsePart p name isRequired place)
      (fun rs n => Settled linked ⟨p.raw, false, place⟩ rs ∧ NamedBy rs n) :=
  (h name isRequired place).mono (fun _ hq => hq.of_child hc) (fun _ hf => hf.of_child hc) (fun _ _ h => h)

/-! ### Objects -/

theorem parseProperties_keeps (linked : Bool) (s : Site) (required : List String) : ∀ {ps : List (String × Part)},
    (∀ e ∈ ps, e.2.raw.isBool = false →
      s.Child linked ⟨e.2.raw, false, Pointer.property s.place e.1⟩ ∧ PartKeeps linked e.2) →
    Spec (s.Asked linked) (s.Blamed linked) (parseProperties required s.place ps) (fun rs ns =>
      (∀ e ∈ ps, e.2.raw.isBool = false → Settled linked ⟨e.2.raw, false, Pointer.property s.place e.1⟩ rs) ∧
        ∀ n ∈ ns, NamedBy rs n)
  | [], _ => by
    rw [parseProperties, Script.pure_eq]
    exact ⟨fun _ he => (by cases he), fun _ hn => (by cases hn)⟩
  | (k, p) :: rest, h => by
    have hrest := parseProperties_keeps linked s required (fun e he => h e (List.mem_cons_of_mem _ he))
    rw [parseProperties]
    split
    · next hb =>
      refine hrest.imp (fun rs ns hs => ⟨List.forall_mem_cons.2 ⟨fun hf => ?_, hs.1⟩, hs.2⟩)
      rw [hb] at hf; cases hf
    · next hb =>
      obtain ⟨hc, hp⟩ := h (k, p) List.mem_cons_self (Bool.eq_false_iff.2 hb)
      refine (Spec.cons id settled_grows (.all fun _ => .imp (.imp settled_grows)) namedBy_grows (hp.at_child hc _ _)
        hrest).imp ?_
      exact fun rs ns hs => ⟨List.forall_mem_cons.2 ⟨fun _ => hs.1.1, hs.1.2⟩, hs.2⟩

theorem parseDefinition_keeps {s : Site} {k : String} {p : Part}
    (hroot : linked ∧ s.place = Pointer.root → ∀ n, s.Asks linked (.definition k s.place n))
    (hpart : ¬(linked ∧ s.place = Pointer.root) →
      s.Child linked ⟨p.raw, false, Pointer.definition s.place k⟩ ∧ PartKeeps linked p) :
    Spec (s.Asked linked) (s.Blamed linked) (parseDefinition linked s.place k p) (fun rs n =>
      (¬(linked ∧ s.place = Pointer.root) → Settled linked ⟨p.raw, false, Pointer.definition s.place k⟩ rs) ∧
        NamedBy rs n) := by
  unfold parseDefinition
  split
  · next hr =>
    exact fun n => ⟨⟨s, .refl, hroot hr n⟩, fun h => absurd hr h, fun id hid => ⟨_, List.mem_singleton_self _, hid⟩⟩
  · next hr =>
    obtain ⟨hc, hp⟩ := hpart hr
    exact (hp.at_child hc _ _).imp (fun _ _ h => ⟨fun _ => h.1, h.2⟩)

theorem parseDefinitions_keeps (linked : Bool) (s : Site) : ∀ {ds : List (String × Part)},
    (∀ e ∈ ds, e.2.raw.isBool = false →
      (linked ∧ s.place = Pointer.root → ∀ n, s.Asks linked (.definition e.1 s.place n)) ∧
      (¬(linked ∧ s.place = Pointer.root) →
        s.Child linked ⟨e.2.raw, false, Pointer.definition s.place e.1⟩ ∧ PartKeeps linked e.2)) →
    Spec (s.Asked linked) (s.Blamed linked) (parseDefinitions linked s.place ds) (fun rs ns =>
      (∀ e ∈ ds, e.2.raw.isBool = false → ¬(linked ∧ s.place = Pointer.root) →
        Settled linked ⟨e.2.raw, false, Pointer.definition s.place e.1⟩ rs) ∧ ∀ e ∈ ns, NamedBy rs e.2)
  | [], _ => by
    rw [parseDefinitions, Script.pure_eq]
    exact ⟨fun _ he => (by cases he), fun _ hn => (by cases hn)⟩
  | (k, p) :: rest, h => by
    have hrest := parseDefinitions_keeps linked s (fun e he => h e (List.mem_cons_of_mem _ he))
    rw [parseDefinitions]
    split
    · next hb =>
      refine hrest.imp (fun rs ns hs => ⟨List.forall_mem_cons.2 ⟨fun hf => ?_, hs.1⟩, hs.2⟩)
      rw [hb] at hf; cases hf
    · next hb =>
      obtain ⟨hroot, hpart⟩ := h (k, p) List.mem_cons_self (Bool.eq_false_iff.2 hb)
      refine (Spec.cons (fun n => (k, n)) (.imp settled_grows) (.all fun _ => .imp (.imp (.imp settled_grows)))
        (fun e => namedBy_grows e.2) (parseDefinition_keeps hroot hpart) hrest).imp ?_
      exact fun rs ns hs => ⟨List.forall_mem_cons.2 ⟨fun _ => hs.1.1, hs.1.2⟩, hs.2⟩

/-! ### Items -/

theorem ShapeKeeps.at_child {v : Json} {shape : Shape} (h : ShapeKeeps linked v shape) {s c : Site} {ms : Members}
    {ts : List RawType} (hc : s.Child linked c) (hv : v = .obj ms) (hr : c.raw = v) (hts : c.types = .ok ts)
    (href : c.reference? = none) :
    Spec (s.Asked linked) (s.Blamed linked) (shape ts c.place) (fun rs n => c.Settled linked rs ∧ NamedBy rs n) :=
  (h c ms ts hv hr hts).mono (fun _ hq => hq.of_child hc) (fun _ hf => hf.of_child hc) (fun _ _ hq =>
    ⟨.of_types (hr.trans hv) hts hq.1 (fun _ hm => by rw [href] at hm; cases hm), hq.2⟩)

theorem parseItem_keeps {s : Site} {p : Part} {is : Members} {place : Location} (hp : ShapeKeeps linked p.raw p.shape)
    (hr : p.raw = .obj is) (hc : s.Child linked ⟨.obj is, false, place⟩) :
    Spec (s.Asked linked) (s.Blamed linked) (parseItem p place)
      (fun rs n => Settled linked ⟨.obj is, false, place⟩ rs ∧ NamedBy rs n) := by
  rw [← hr] at hc ⊢
  unfold parseItem
  split
  · next ms hms =>
    split
    · exact (partKeeps_of_shape hp).at_child hc _ _
    · next hnone =>
      have href : Keywords.reference? ms = none := by simpa using hnone
      have hts : Spec (s.Asked linked) (s.Blamed linked) (typesAt ms place)
          (fun rs ts => rs = [] ∧ (⟨p.raw, false, place⟩ : Site).types = .ok ts) :=
        (typesAt_keeps (s := ⟨p.raw, false, place⟩) hms rfl).mono (fun _ hq => .of_child hc hq)
          (fun _ hf => .of_child hc hf) (fun _ _ h => h)
      refine hts.bind ?_
      rintro _ ts ⟨rfl, ht⟩
      exact hp.at_child hc hms rfl ht (by simp [Site.reference?, hms, href])
  · next hf => exact absurd hr (hf is)

theorem parseItems_keeps {s : Site} : ∀ {es : List (Location × Part)},
    (∀ e ∈ es, ShapeKeeps linked e.2.raw e.2.shape ∧ ∃ is, e.2.raw = .obj is ∧ s.Child linked ⟨.obj is, false, e.1⟩) →
    Spec (s.Asked linked) (s.Blamed linked) (parseItems es) (fun rs ns =>
      (∀ e ∈ es, Settled linked ⟨e.2.raw, false, e.1⟩ rs) ∧ ∀ n ∈ ns, NamedBy rs n)
  | [], _ => by
    rw [parseItems, Script.pure_eq]
    exact ⟨fun _ he => (by cases he), fun _ hn => (by cases hn)⟩
  | (place, p) :: rest, h => by
    obtain ⟨hp, is, hr, hc⟩ := h (place, p) List.mem_cons_self
    have hitem := parseItem_keeps hp hr hc
    rw [← hr] at hitem
    rw [parseItems]
    refine (Spec.cons id settled_grows (.all fun _ => .imp settled_grows) namedBy_grows hitem
      (parseItems_keeps (fun e he => h e (List.mem_cons_of_mem _ he)))).imp ?_
    exact fun rs ns hs => ⟨List.forall_mem_cons.2 hs.1, hs.2⟩

theorem singleItem_keeps {s : Site} {p : Part} {is : Members} {place : Location}
    (hp : ShapeKeeps linked p.raw p.shape) (hr : p.raw = .obj is)
    (hc : s.Child linked ⟨.obj is, isUntyped is, place⟩) :
    Spec (s.Asked linked) (s.Blamed linked) (singleItem p place)
      (fun rs n => Settled linked ⟨.obj is, isUntyped is, place⟩ rs ∧ NamedBy rs n) := by
  unfold singleItem
  split
  · next ms hms =>
    obtain rfl : is = ms := by rw [hr] at hms; cases hms; rfl
    split
    · next href =>
      have hu : isUntyped is = false := by simp [isUntyped, Option.isNone_eq_false_iff.2 href]
      rw [hu, ← hr] at hc ⊢
      refine ((partKeeps_of_shape hp).at_child hc _ _).bind ?_
      rintro rs n ⟨hs, hn⟩
      rw [Script.pure_eq, Spec, List.append_nil]
      exact ⟨hs, hn.referring⟩
    · next hnone =>
      have href : Keywords.reference? is = none := by simpa using hnone
      split
      · next htl =>
        have hu : isUntyped is = true := by simp [isUntyped, href, htl]
        rw [hu] at hc ⊢
        refine (hp.at_child hc hms hr.symm rfl (by simp [Site.reference?, href])).bind ?_
        rintro rs n ⟨hs, hn⟩
        rw [Script.pure_eq, Spec, List.append_nil]
        exact ⟨hs, hn.array⟩
      · next htl =>
        have hu : isUntyped is = false := by simp [isUntyped, htl]
        rw [hu] at hc ⊢
        refine (parseItem_keeps hp hr hc).bind ?_
        rintro rs n ⟨hs, hn⟩
        rw [Script.pure_eq, Spec, List.append_nil]
        exact ⟨hs, hn.array⟩
  · next hf => exact absurd hr (hf is)

/-! ### Objects and arrays as wholes -/

section

variable {s : Site} {ms : Members} {ts : List RawType} (hr : s.raw = .obj ms) (hts : s.types = .ok ts)
  (hv : ∀ v, sizeOf v < sizeOf (Json.obj ms) → ShapeKeeps linked v (view linked v).shape)

include hr hts in
theorem membersOf_keeps (ho : .object ∈ ts) {key : String} (hk : key = "properties" ∨ key = "$defs") :
    Spec (s.Asked linked) (s.Blamed linked)
      (Script.ofExcept (membersOf ((ms.map (fun e => (e.1, view linked e.2))).lookup key))) (fun rs ps =>
        rs = [] ∧ ps = (membersIn ms key).map (fun e => (e.1, (view linked e.2).toPart)) ∧
          ∀ v, ms.lookup key = some v → v.isObject = false → v.isGiven = false) := by
  rw [lookup_views]
  refine Script.spec_ofExcept (fun f hf => ?_) (fun ps hps => ⟨rfl, membersOf_ok hps⟩)
  obtain ⟨rfl, v, hl, hv, hg⟩ := membersOf_error hf
  exact ⟨s, .refl, .keyword hr hts ho (.members hk hl hv hg)⟩

include hr hts hv in
theorem objectShape_keeps (ho : .object ∈ ts) :
    Spec (s.Asked linked) (s.Blamed linked) (objectShape linked ms (ms.map (fun e => (e.1, view linked e.2))) s.place)
      (fun rs n => InOrder linked ms s.place rs .object ∧ NamedBy rs n) := by
  have hchild : ∀ c, Inside linked ms s.place .object c → s.Child linked c := fun c hc => ⟨ms, ts, _, hr, hts, ho, hc⟩
  have hpart : ∀ key k v, (k, v) ∈ membersIn ms key → PartKeeps linked (view linked v).toPart := fun _ _ v hm =>
    partKeeps_view (hv v (sizeOf_membersIn hm))
  unfold objectShape
  refine Spec.bind (Q := fun rs _ => rs = [] ∧ ∀ f, Keywords.required ms ≠ .error f)
    (Script.spec_ofExcept (fun f hf => ⟨s, .refl, .keyword hr hts ho (.required hf)⟩)
      (fun _ hok => ⟨rfl, fun f hf => by rw [hok] at hf; cases hf⟩)) ?_
  rintro _ required ⟨rfl, hreq⟩
  refine (membersOf_keeps hr hts ho (.inl rfl)).bind ?_
  rintro _ _ ⟨rfl, rfl, hprops⟩
  refine (parseProperties_keeps linked s required (fun e he hb => ?_)).bind ?_
  · obtain ⟨⟨k, v⟩, hm, rfl⟩ := List.mem_map.1 he
    simp only [view_raw] at hb ⊢
    exact ⟨hchild _ (.property hm hb), hpart _ k v hm⟩
  rintro rs nodes ⟨hps, hnodes⟩
  refine (membersOf_keeps hr hts ho (.inr rfl)).bind ?_
  rintro _ _ ⟨rfl, rfl, hdefs⟩
  refine (parseDefinitions_keeps linked s (fun e he hb => ?_)).bind ?_
  · obtain ⟨⟨k, v⟩, hm, rfl⟩ := List.mem_map.1 he
    simp only [view_raw] at hb ⊢
    exact ⟨fun hroot n => .definition hroot hr hts ho hm hb,
      fun hroot => ⟨hchild _ (.definition hroot hm hb), hpart _ k v hm⟩⟩
  rintro rs' defs ⟨hds, hnodes'⟩
  have hl : ∀ q ∈ rs, q ∈ [] ++ ([] ++ (rs ++ ([] ++ (rs' ++ [])))) := fun q hq => by simp [hq]
  have hr' : ∀ q ∈ rs', q ∈ [] ++ ([] ++ (rs ++ ([] ++ (rs' ++ [])))) := fun q hq => by simp [hq]
  refine ⟨inOrder_object hreq (fun key v hk => ?_) (fun k v hm hb => ?_) (fun hroot k v hm hb => ?_),
    .object (fun p hp => namedBy_grows p _ _ (hnodes p hp) hl) (fun e he => namedBy_grows e.2 _ _ (hnodes' e he) hr')⟩
  · rcases hk with rfl | rfl
    · exact hprops v
    · exact hdefs v
  · have hset := hps (k, (view linked v).toPart) (List.mem_map.2 ⟨_, hm, rfl⟩) (by rw [view_raw]; exact hb)
    rw [view_raw] at hset
    exact settled_grows _ _ hset hl
  · have hset := hds (k, (view linked v).toPart) (List.mem_map.2 ⟨_, hm, rfl⟩) (by rw [view_raw]; exact hb) hroot
    rw [view_raw] at hset
    exact settled_grows _ _ hset hr'

/-! ### Item lists -/

theorem mem_itemEntries {vs : List Json} {path place : Location} {p : Part} :
    (place, p) ∈ schemaEntries path 0 (vs.map (fun v => (view linked v).toPart)) ↔
      ∃ i is, vs[i]? = some (.obj is) ∧ p = (view linked (.obj is)).toPart ∧ place = Pointer.item path i := by
  rw [mem_schemaEntries]
  constructor
  · rintro ⟨i, hi, ho, hp⟩
    rw [List.getElem?_map] at hi
    obtain ⟨w, hw, rfl⟩ := Option.map_eq_some_iff.1 hi
    rw [view_raw] at ho
    cases w with
    | obj is => exact ⟨i, is, hw, rfl, by rw [hp, Nat.zero_add]⟩
    | _ => cases ho
  · rintro ⟨i, is, hi, rfl, hp⟩
    exact ⟨i, by rw [List.getElem?_map, hi]; rfl, rfl, by rw [hp, Nat.zero_add]⟩

include hr hts hv in
theorem itemEntry_keeps (ha : .array ∈ ts) {vs : List Json} (hl : ms.lookup "items" = some (.arr vs)) {i : Nat}
    {is : Members} (hi : vs[i]? = some (.obj is)) :
    ShapeKeeps linked (view linked (.obj is)).raw (view linked (.obj is)).shape ∧
      s.Child linked ⟨.obj is, isSole vs && isUntyped is, Pointer.item s.place i⟩ := by
  refine ⟨?_, ms, ts, _, hr, hts, ha, .item hl hi⟩
  rw [view_raw]
  exact hv _ (Nat.lt_trans (sizeOf_item (List.mem_of_getElem? hi)) (sizeOf_lookup hl))

include hr hts hv in
theorem listShape_keeps (ha : .array ∈ ts) {vs : List Json} (hl : ms.lookup "items" = some (.arr vs)) :
    Spec (s.Asked linked) (s.Blamed linked)
      (listShape (schemaEntries s.place 0 (vs.map (fun v => (view linked v).toPart))))
      (fun rs n => InOrder linked ms s.place rs .array ∧ NamedBy rs n) := by
  have hmem := @mem_itemEntries linked vs s.place
  have hlen := @length_schemaEntries linked s.place vs 0
  generalize schemaEntries s.place 0 (vs.map (fun v => (view linked v).toPart)) = es at hmem hlen ⊢
  match es with
  | [] =>
    refine ⟨inOrder_itemList hl (fun i is hi => ?_), namedBy_anything _⟩
    have hnone := hmem.2 ⟨i, is, hi, rfl, rfl⟩
    cases hnone
  | [(place, p)] =>
    obtain ⟨i, is, hi, rfl, rfl⟩ := hmem.1 List.mem_cons_self
    have hsole : isSole vs = true := by rw [isSole, ← hlen]; rfl
    obtain ⟨hshape, hc⟩ := itemEntry_keeps hr hts hv ha hl hi
    rw [hsole, Bool.true_and] at hc
    refine (singleItem_keeps hshape (view_raw linked _) hc).imp ?_
    rintro rs n ⟨hs, hn⟩
    refine ⟨inOrder_itemList hl (fun j js hj => ?_), hn⟩
    -- any schema of the list is the only one
    have heq := List.mem_singleton.1 (hmem.2 ⟨j, js, hj, rfl, rfl⟩)
    rw [Prod.mk.injEq] at heq
    have hraw := congrArg Part.raw heq.2
    rw [view_raw, view_raw] at hraw
    cases hraw
    rw [hsole, Bool.true_and, heq.1]
    exact hs
  | e :: e' :: es =>
    have hsole : isSole vs = false := by
      rw [isSole, ← hlen, List.length_cons, List.length_cons]
      exact beq_false_of_ne (by omega)
    refine Spec.bind (@parseItems_keeps linked s _ (fun f hf => ?_)) ?_
    · obtain ⟨i, is, hi, hp, hplace⟩ := hmem.1 hf
      obtain ⟨hshape, hc⟩ := itemEntry_keeps hr hts hv ha hl hi
      rw [hsole, Bool.false_and] at hc
      rw [hp, hplace]
      exact ⟨hshape, is, view_raw linked _, hc⟩
    · rintro rs ns ⟨hs, hn⟩
      rw [Script.pure_eq, Spec, List.append_nil]
      refine ⟨inOrder_itemList hl (fun i is hi => ?_), (NamedBy.union hn).array⟩
      have hset := hs _ (hmem.2 ⟨i, is, hi, rfl, rfl⟩)
      rw [view_raw] at hset
      rw [hsole, Bool.false_and]
      exact hset

/-! ### Whole shapes -/

include hr hts hv in
theorem arrayShape_keeps (ha : .array ∈ ts) :
    Spec (s.Asked linked) (s.Blamed linked)
      (arrayShape ((ms.map (fun e => (e.1, view linked e.2))).lookup "items") s.place)
      (fun rs n => InOrder linked ms s.place rs .array ∧ NamedBy rs n) := by
  rw [lookup_views]
  cases hl : ms.lookup "items" with
  | none => exact ⟨inOrder_noItems (by simp [hl]) (by simp [hl]), namedBy_anything _⟩
  | some v =>
    cases v with
    | obj is =>
      have hshape : ShapeKeeps linked (view linked (.obj is)).raw (view linked (.obj is)).shape := by
        rw [view_raw]
        exact hv _ (sizeOf_lookup hl)
      refine (singleItem_keeps hshape (view_raw linked _) ⟨ms, ts, _, hr, hts, ha, .items hl⟩).imp ?_
      rintro rs n ⟨hs, hn⟩
      exact ⟨inOrder_items hl hs, hn⟩
    | arr vs =>
      rw [Option.map_some, arrayShape, view_raw, entries_view_arr]
      exact listShape_keeps hr hts hv ha hl
    | _ => exact ⟨inOrder_noItems (by simp [hl]) (by simp [hl]), namedBy_anything _⟩

theorem enumAt_keeps (s : Site) (ms : Members) (place : Location) :
    Spec (s.Asked linked) (s.Blamed linked) (enumAt ms place) (fun rs _ => rs = []) := by
  unfold enumAt noteDropped
  split <;> exact rfl

theorem primitiveShape_keeps (s : Site) (ms : Members) (types : List RawType) (p : Primitive) (place : Location) :
    Spec (s.Asked linked) (s.Blamed linked) (primitiveShape ms types p place) (fun rs n => NamedBy rs n) := by
  refine (enumAt_keeps s ms place).bind ?_
  rintro _ e rfl
  exact namedBy_primitive _ _ _

include hr hts hv in
theorem memberShape_keeps {t : RawType} (ht : t ∈ ts) :
    Spec (s.Asked linked) (s.Blamed linked)
      (memberShape linked ms (ms.map (fun e => (e.1, view linked e.2))) s.place t)
      (fun rs n => InOrder linked ms s.place rs t ∧ NamedBy rs n) := by
  cases t with
  | object => exact objectShape_keeps hr hts hv ht
  | array => exact arrayShape_keeps hr hts hv ht
  | _ =>
    refine (primitiveShape_keeps s ms _ _ s.place).imp (fun rs n hn => ⟨inOrder_plain ?_ ?_, hn⟩)
    · exact fun h => by cases h
    · exact fun h => by cases h

include hr hts hv in
theorem parseMembers_keeps : ∀ {us : List RawType}, (∀ t ∈ us, t ∈ ts) →
    Spec (s.Asked linked) (s.Blamed linked)
      (parseMembers linked ms (ms.map (fun e => (e.1, view linked e.2))) s.place us)
      (fun rs ns => (∀ t ∈ us, InOrder linked ms s.place rs t) ∧ ∀ n ∈ ns, NamedBy rs n)
  | [], _ => by
    rw [parseMembers, Script.pure_eq]
    exact ⟨fun _ he => (by cases he), fun _ hn => (by cases hn)⟩
  | t :: us, h => by
    rw [parseMembers]
    refine (Spec.cons id (inOrder_grows t) (.all fun u => .imp (inOrder_grows u)) namedBy_grows
      (memberShape_keeps hr hts hv (h t List.mem_cons_self))
      (parseMembers_keeps (fun u hu => h u (List.mem_cons_of_mem _ hu)))).imp ?_
    exact fun rs ns hs => ⟨List.forall_mem_cons.2 hs.1, hs.2⟩

include hr hts hv in
theorem shapeOf_keeps :
    Spec (s.Asked linked) (s.Blamed linked) (shapeOf linked ms (ms.map (fun e => (e.1, view linked e.2))) ts s.place)
      (fun rs n => (∀ t ∈ ts, InOrder linked ms s.place rs t) ∧ NamedBy rs n) := by
  -- null calls for nothing, so it is enough that the other types are in order
  have hall : ∀ {rs : List Request}, (∀ t ∈ ts.filter (· ≠ .null), InOrder linked ms s.place rs t) →
      ∀ t ∈ ts, InOrder linked ms s.place rs t := fun h t ht => by
    by_cases hn : t = .null
    · subst hn; exact inOrder_plain (by decide) (by decide)
    · exact h t (List.mem_filter.2 ⟨ht, by simpa using hn⟩)
  have hsub : ∀ t ∈ ts.filter (· ≠ .null), t ∈ ts := fun t ht => (List.mem_filter.1 ht).1
  unfold shapeOf
  split
  · next hnil =>
    rw [hnil] at hall
    exact (primitiveShape_keeps s ms ts .any s.place).imp (fun rs n hn => ⟨hall (fun _ ht => by cases ht), hn⟩)
  · next t hone =>
    rw [hone] at hall hsub
    refine (memberShape_keeps hr hts hv (hsub t List.mem_cons_self)).imp ?_
    exact fun rs n h => ⟨hall (List.forall_mem_cons.2 ⟨h.1, fun _ ht => by cases ht⟩), h.2⟩
  · refine (parseMembers_keeps hr hts hv hsub).bind ?_
    rintro rs ns ⟨hin, hn⟩
    refine (enumAt_keeps s ms s.place).bind ?_
    rintro _ e rfl
    rw [Script.pure_eq, Spec, List.append_nil, List.append_nil]
    exact ⟨hall hin, .union hn⟩

end

/-- **The shape of every value keeps to its course**, by induction on the value. -/
theorem shape_keeps (linked : Bool) : ∀ v : Json, ShapeKeeps linked v (view linked v).shape
  | v => fun s ms ts hv hr hts => by
    subst hv
    rw [shape_view_obj]
    exact shapeOf_keeps hr hts (fun w _ => shape_keeps linked w)
termination_by v => sizeOf v

/-- **A parse keeps to its course**: what it asks and what it fails by comes from the sites it reaches, and when it
ends, all of these are in order, their references have been asked for, and so has all that the node names. -/
theorem script_keeps (linked : Bool) (raw name : Json) (isRequired : Bool) (path : Location) :
    Spec (Asked linked ⟨raw, false, path⟩) (Blamed linked ⟨raw, false, path⟩) (script linked raw name isRequired path)
      (fun rs n => Settled linked ⟨raw, false, path⟩ rs ∧ NamedBy rs n) := by
  have h := partKeeps_view (shape_keeps linked raw) name isRequired path
  rw [view_raw] at h
  exact h

end Parser
end TrackingPlan
