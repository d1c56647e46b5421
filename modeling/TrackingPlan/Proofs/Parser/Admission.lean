import TrackingPlan.Proofs.Parser.Faultless
import TrackingPlan.Proofs.Parsing
import TrackingPlan.Proofs.Payload
import TrackingPlan.Proofs.Script
/-!
# Admission — a node admits what its schema admits

The parse of a `Plain` schema always succeeds: nothing in it is asked for and nothing is at fault (`Yields`).  By
induction on the schema, its shape admits all values but null that the schema admits (`Covers`), as each of its types
does for the values of that type; the metadata then adds null.  So no payload that a schema admits is ever rejected by
its node (`parse_admits`).
-/
namespace TrackingPlan

/-! ## Scripts that ask for nothing and cannot fail -/

namespace Script

variable {α β : Type}

/-- **A script that ends with such a result**, whatever happens. -/
abbrev Yields (s : Script α) (Q : α → Prop) : Prop := Spec (fun _ => False) (fun _ => False) s (fun _ a => Q a)

theorem Yields.bind {s : Script α} {f : α → Script β} {Q : α → Prop} {Q' : β → Prop} (h : s.Yields Q)
    (hf : ∀ a, Q a → (f a).Yields Q') : (s >>= f).Yields Q' :=
  Spec.bind h (fun _ a ha => hf a ha)

theorem ofExcept_yields {e : Except Fault α} {a : α} (h : e = .ok a) : (ofExcept e).Yields (· = a) := by
  subst h
  rfl

theorem Yields.outcome {s : Script α} {Q : α → Prop} (h : s.Yields Q) (links : Links) (l : Ledger) :
    ∃ a, (s.run links).outcome l = .ok a ∧ Q a := by
  induction s generalizing l with
  | done a => exact ⟨a, rfl, h⟩
  | fail f => exact h.elim
  | note record next ih => exact ih h _
  | reference ref place next ih => exact h.1.elim
  | definition key place next ih => exact (h .anything).1.elim

end Script

namespace Keywords

open TrackingPlan.Parser (membersIn Tidy TypesSupported)

/-! ## Plain schemas -/

/-- What is asked of the keywords of a plain schema, apart from the schemas in it. -/
structure PlainKeywords (ms : Members) : Prop where
  reference : ms.lookup "$ref" = none
  definitions : ms.lookup "$defs" = none
  types : TypesSupported ms
  values : ∀ w, Lists ms w → w.isScalar = true
  tidy : Tidy ms
  properties : ∀ k v, (k, v) ∈ membersIn ms "properties" → k ≠ "" ∧ (v.isObject = true ∨ v.isBool = true)
  items : ∀ v, ms.lookup "items" = some v →
    v.isBool = true ∨ ∃ is, v = .obj is ∧ typeNames is ≠ [] ∧ .str "null" ∉ typeNames is

/-- **Schemas without references and definitions**, all keywords of which are as they should be; items declare types
other than null. -/
inductive Plain : Members → Prop where
  | intro {ms} (keywords : PlainKeywords ms)
    (properties : ∀ k is, (k, .obj is) ∈ membersIn ms "properties" → Plain is)
    (items : ∀ is, ms.lookup "items" = some (.obj is) → Plain is) : Plain ms

variable {ms : Members}

theorem PlainKeywords.reference? (h : PlainKeywords ms) : Keywords.reference? ms = none := by
  unfold Keywords.reference?
  rw [h.reference]

theorem PlainKeywords.required_eq (h : PlainKeywords ms) :
    ∃ names, required ms = .ok names ∧
      ∀ k ∈ names, ∃ ks, ms.lookup "required" = some (.arr ks) ∧ .str k ∈ ks := by
  unfold required
  cases hl : ms.lookup "required" with
  | none => exact ⟨[], rfl, fun _ hk => by cases hk⟩
  | some v =>
    obtain ⟨names, rfl⟩ := h.tidy.required v hl
    have hall : (names.map Json.str).all Json.isScalar = true := by simp [Json.isScalar]
    have hnames : namesIn (.arr (names.map .str)) = .ok names := by
      rw [namesIn, if_pos hall, List.filterMap_map]
      exact congrArg Except.ok (List.filterMap_some ..)
    by_cases hempty : names = []
    · subst hempty
      exact ⟨[], rfl, fun _ hk => by cases hk⟩
    · refine ⟨names, ?_, fun k hk => ⟨_, rfl, List.mem_map_of_mem hk⟩⟩
      have hgiven : Json.given? (some (.arr (names.map .str))) = some (.arr (names.map .str)) := by
        simp [Json.given?, Json.isGiven, hempty]
      rw [hgiven]
      exact hnames

end Keywords

namespace Parser

open Keywords (Members Admits Plain PlainKeywords typeNames)
open Script (Yields)

variable {linked : Bool} {ms : Members} {path : Location}

theorem typesAt_yields (h : TypesSupported ms) (path : Location) :
    (typesAt ms path).Yields (fun ts => Keywords.types ms = .ok ts) := by
  obtain ⟨ts, hts⟩ := types_ok_iff.2 h
  unfold typesAt
  rw [hts]
  exact rfl

/-! ## What the parts of a shape admit -/

/-- **The node admits what the schema does**, null apart. -/
def Covers (ms : Members) (n : Node) : Prop :=
  n.info.isRequired = false ∧ ∀ v, v ≠ .null → Admits ms v → n.Admits v

/-- **The node admits what the schema does** of the values of a type. -/
def CoversType (ms : Members) (t : RawType) (n : Node) : Prop :=
  n.info.isRequired = false ∧ ∀ v, t.holds v = true → Admits ms v → n.Admits v

/-- **A schema whose shapes admit what it does.** -/
structure Covered (linked : Bool) (ms : Members) : Prop where
  keywords : PlainKeywords ms
  shape : ∀ ts path, Keywords.types ms = .ok ts → ((view linked (.obj ms)).shape ts path).Yields (Covers ms)

theorem enumAt_yields (ms : Members) (path : Location) : (enumAt ms path).Yields (· = Keywords.enum? ms) := by
  unfold enumAt noteDropped
  by_cases hcount : Keywords.droppedCount ms = 0
  · rw [if_pos hcount]; exact rfl
  · rw [if_neg hcount]; exact rfl

theorem primitiveShape_yields (ms : Members) (ts : List RawType) (p : Primitive) (path : Location) :
    (primitiveShape ms ts p path).Yields
      (fun n => n = .primitive {} p (if ts = [.null] then some [.null] else Keywords.enum? ms)) := by
  unfold primitiveShape
  exact (enumAt_yields ms path).bind fun e he => he ▸ rfl

theorem primitiveShape_covers (h : PlainKeywords ms) {t : RawType} {p : Primitive} (ht : t ≠ .null)
    (hp : ∀ v, t.holds v = true → p.holds v = true) :
    (primitiveShape ms [t] p path).Yields (CoversType ms t) := by
  refine (primitiveShape_yields ms [t] p path).imp ?_
  rintro - n rfl
  have hnull : [t] ≠ [.null] := by simpa using ht
  rw [if_neg hnull]
  exact ⟨rfl, fun v hv hadmits => .primitive (hp v hv) (hadmits.among_enum? h.values)⟩

/-- **The metadata adds null**, where the schema admits it. -/
theorem parsePart_covers (h : Covered linked ms) (name : Json) (isRequired : Bool) (path : Location) :
    (parsePart (view linked (.obj ms)).toPart name isRequired path).Yields
      (fun n => n.info.name = Json.firstGiven [name, (Json.given? (ms.lookup "title")).getD .null] ∧
        n.info.isRequired = isRequired ∧ ∀ v, Admits ms v → n.Admits v) := by
  unfold parsePart
  rw [view_raw]
  have hfollow : follow ms path = .done () := by unfold follow; rw [h.keywords.reference?]
  refine Yields.bind (Q := fun _ => True) (by rw [hfollow]; trivial) fun _ _ => ?_
  refine (typesAt_yields h.keywords.types path).bind fun ts hts => ?_
  refine (h.shape ts path hts).bind fun n hn => ?_
  have hinfo : (Keywords.describe ms ts name isRequired n).info = _ := Node.info_withInfo _ n
  refine ⟨by rw [hinfo], by rw [hinfo, hn.1, Bool.or_false], fun v hv => ?_⟩
  by_cases hnull : v = .null
  · subst hnull
    exact .null (by rw [hinfo]; exact hv.nullable hts)
  · exact (hn.2 v hnull hv).withInfo hnull _

/-! ## Objects -/

/-- A node that a property of an object is parsed to. -/
def OfProperty (ps : Members) (required : List String) (n : Node) : Prop :=
  ∃ k is, (k, .obj is) ∈ ps ∧ n.info.name = .str k ∧ (n.info.isRequired = true → k ∈ required) ∧
    ∀ v, Admits is v → n.Admits v

theorem parseProperties_covers (required : List String) (path : Location) : ∀ (ps : Members),
    (∀ k v, (k, v) ∈ ps → k ≠ "" ∧ (v.isObject = true ∨ v.isBool = true)) →
    (∀ k is, (k, .obj is) ∈ ps → Covered linked is) →
    (parseProperties required path (ps.map (fun e => (e.1, (view linked e.2).toPart)))).Yields
      (fun ns => ∀ n ∈ ns, OfProperty ps required n)
  | [], _, _ => fun _ hn => by cases hn
  | (k, v) :: ps, hvalues, hcovered => by
    have hrest := parseProperties_covers required path ps (fun k v hv => hvalues k v (List.mem_cons_of_mem _ hv))
      (fun k is his => hcovered k is (List.mem_cons_of_mem _ his))
    have hweaken : ∀ n, OfProperty ps required n → OfProperty ((k, v) :: ps) required n :=
      fun n ⟨j, is, hj, hn⟩ => ⟨j, is, List.mem_cons_of_mem _ hj, hn⟩
    obtain ⟨hk, hv⟩ := hvalues k v List.mem_cons_self
    rw [List.map_cons, parseProperties, view_raw]
    split
    · exact hrest.imp fun _ ns hns n hn => hweaken n (hns n hn)
    · next hbool =>
      obtain ⟨is, rfl⟩ : ∃ is, v = .obj is := by
        cases v with
        | obj is => exact ⟨is, rfl⟩
        | bool => exact absurd rfl hbool
        | _ => rcases hv with hv | hv <;> cases hv
      refine (parsePart_covers (hcovered k is List.mem_cons_self) (.str k) _ _).bind ?_
      rintro n ⟨hname, hrequired, hadmits⟩
      refine hrest.bind fun ns hns => List.forall_mem_cons.2 ⟨?_, fun m hm => hweaken m (hns m hm)⟩
      have hgiven : (Json.str k).isGiven = true := by simpa [Json.isGiven] using hk
      refine ⟨k, is, List.mem_cons_self, ?_, fun hr => ?_, hadmits⟩
      · rw [hname, Json.firstGiven, if_pos hgiven]
      · rw [hrequired] at hr
        exact List.contains_iff_mem.1 hr

theorem membersOf_of_tidy (h : Tidy ms) : membersOf ((ms.lookup "properties").map (view linked)) =
    .ok ((membersIn ms "properties").map (fun e => (e.1, (view linked e.2).toPart))) := by
  cases hm : membersOf ((ms.lookup "properties").map (view linked)) with
  | ok ps => rw [(membersOf_ok hm).1]
  | error f =>
    obtain ⟨-, v, hl, hobj, -⟩ := membersOf_error hm
    rw [h.members _ v (.inl rfl) hl] at hobj
    cases hobj

theorem objectShape_covers (h : PlainKeywords ms)
    (hproperties : ∀ k is, (k, .obj is) ∈ membersIn ms "properties" → Covered linked is)
    (path : Location) :
    (objectShape linked ms (ms.map (fun e => (e.1, view linked e.2))) path).Yields (CoversType ms .object) := by
  obtain ⟨names, hnames, hlisted⟩ := h.required_eq
  unfold objectShape
  rw [lookup_views, lookup_views, h.definitions]
  refine (Script.ofExcept_yields hnames).bind ?_
  rintro names rfl
  refine (Script.ofExcept_yields (membersOf_of_tidy h.tidy)).bind ?_
  rintro _ rfl
  refine (parseProperties_covers names path _ h.properties hproperties).bind fun ns hns => ?_
  refine ⟨rfl, fun v hv hadmits => ?_⟩
  cases v with
  | obj vs =>
    cases hadmits with
    | intro _ _ hrequired hadmitted =>
      refine .object (fun n hn hr => ?_) (fun n hn k w hk hw => ?_)
      · obtain ⟨k, is, -, hname, hin, -⟩ := hns n hn
        obtain ⟨ks, hks, hmem⟩ := hlisted k (hin hr)
        obtain ⟨w, hw⟩ := hrequired vs ks k rfl hks hmem
        exact ⟨k, w, hname, hw⟩
      · obtain ⟨j, is, hj, hname, -, hsub⟩ := hns n hn
        have hjk : j = k := Json.str.inj (hname.symm.trans hk)
        rw [← hjk] at hw
        exact hsub w (hadmitted vs j is w rfl hj hw)
  | _ => cases hv

/-! ## Arrays -/

theorem singleItem_covers {is : Members} (h : Covered linked is) (hnames : typeNames is ≠ []) (path : Location) :
    (singleItem (view linked (.obj is)).toPart path).Yields (fun n => ∃ m, n = .array {} m ∧ Covers is m) := by
  have htyped : isTypeless is = false := by
    have hsome : (is.lookup "type").isNone = false := by
      cases hl : is.lookup "type" with
      | none => exact absurd (by unfold typeNames; rw [hl]) hnames
      | some _ => rfl
    rw [isTypeless, hsome, Bool.and_false]
  unfold singleItem parseItem
  rw [view_raw]
  simp only [h.keywords.reference?, htyped, Option.isSome_none, Bool.false_eq_true, if_false]
  refine Yields.bind (Q := Covers is) ?_ fun m hm => ⟨m, rfl, hm⟩
  exact (typesAt_yields h.keywords.types path).bind fun ts hts => h.shape ts path hts

theorem arrayShape_covers (h : PlainKeywords ms)
    (hitems : ∀ is, ms.lookup "items" = some (.obj is) → Covered linked is) (path : Location) :
    (arrayShape ((ms.lookup "items").map (view linked)) path).Yields (CoversType ms .array) := by
  have hanything : CoversType ms .array (.array {} .anything) := by
    refine ⟨rfl, fun v hv _ => ?_⟩
    cases v with
    | arr vs => exact .array fun w _ => .primitive rfl (fun _ he => by cases he)
    | _ => cases hv
  cases hl : ms.lookup "items" with
  | none => exact hanything
  | some v =>
    rcases h.items v hl with hbool | ⟨is, rfl, hnames, hnull⟩
    · cases v with
      | bool => exact hanything
      | _ => cases hbool
    · refine (singleItem_covers (hitems is hl) hnames (Pointer.items path)).imp ?_
      rintro - _ ⟨m, rfl, -, hm⟩
      refine ⟨rfl, fun v hv hadmits => ?_⟩
      cases v with
      | arr vs =>
        cases hadmits with
        | intro _ _ _ _ hadmitted =>
          refine .array fun w hw => ?_
          have hitem := hadmitted vs is rfl hl w hw
          exact hm w (hitem.ofTypes.ne_null hnames hnull) hitem
      | _ => cases hv

/-! ## Schemas -/

/-- The schemas in a schema are covered. -/
structure PartsCovered (linked : Bool) (ms : Members) : Prop where
  properties : ∀ k is, (k, .obj is) ∈ membersIn ms "properties" → Covered linked is
  items : ∀ is, ms.lookup "items" = some (.obj is) → Covered linked is

theorem memberShape_covers (h : PlainKeywords ms) (hparts : PartsCovered linked ms) {t : RawType} (ht : t ≠ .null)
    (path : Location) :
    (memberShape linked ms (ms.map (fun e => (e.1, view linked e.2))) path t).Yields (CoversType ms t) := by
  cases t with
  | object => exact objectShape_covers h hparts.properties path
  | array =>
    rw [memberShape, lookup_views]
    exact arrayShape_covers h hparts.items path
  | null => exact absurd rfl ht
  | _ => exact primitiveShape_covers h ht fun _ hv => hv

theorem parseMembers_covers (h : PlainKeywords ms) (hparts : PartsCovered linked ms) (path : Location) :
    ∀ ts : List RawType, (∀ t ∈ ts, t ≠ .null) →
      (parseMembers linked ms (ms.map (fun e => (e.1, view linked e.2))) path ts).Yields
        (fun ns => ∀ t ∈ ts, ∃ n ∈ ns, CoversType ms t n)
  | [], _ => fun _ ht => by cases ht
  | t :: ts, hts => by
    rw [parseMembers]
    refine (memberShape_covers h hparts (hts t List.mem_cons_self) path).bind fun n hn => ?_
    have hrest := parseMembers_covers h hparts path ts fun u hu => hts u (List.mem_cons_of_mem _ hu)
    refine hrest.bind fun ns hns => List.forall_mem_cons.2 ⟨⟨n, List.mem_cons_self, hn⟩, fun u hu => ?_⟩
    obtain ⟨m, hm, hcovers⟩ := hns u hu
    exact ⟨m, List.mem_cons_of_mem _ hm, hcovers⟩

/-- **The shape of a schema admits what the schema does**, as far as the schemas in it do. -/
theorem shapeOf_covers (h : PlainKeywords ms) (hparts : PartsCovered linked ms) : Covered linked ms := by
  refine ⟨h, fun ts path hts => ?_⟩
  rw [shape_view_obj, shapeOf]
  -- the values but null are of one of the other types, or of any
  have htyped : ∀ v, v ≠ .null → Admits ms v → ts = [] ∨ ∃ t ∈ ts.filter (· ≠ .null), t.holds v = true := by
    intro v hv hadmits
    refine (hadmits.ofTypes.of_types hts).imp_right ?_
    rintro ⟨t, ht, hholds⟩
    have hother : t ≠ .null := by
      rintro rfl
      exact hv (RawType.eq_null_of_holds hholds)
    exact ⟨t, List.mem_filter.2 ⟨ht, decide_eq_true hother⟩, hholds⟩
  have hothers : ∀ t ∈ ts.filter (· ≠ .null), t ≠ .null := fun t ht => of_decide_eq_true (List.mem_filter.1 ht).2
  generalize hus : ts.filter (· ≠ .null) = us at htyped hothers
  match us with
  | [] =>
    refine (primitiveShape_yields ms ts .any path).imp ?_
    rintro - _ rfl
    refine ⟨rfl, fun v hv hadmits => .primitive rfl ?_⟩
    rcases htyped v hv hadmits with rfl | ⟨t, ht, -⟩
    · exact hadmits.among_enum? h.values
    · cases ht
  | [t] =>
    refine (memberShape_covers h hparts (hothers t List.mem_cons_self) path).imp ?_
    rintro - n ⟨hrequired, hn⟩
    refine ⟨hrequired, fun v hv hadmits => ?_⟩
    rcases htyped v hv hadmits with rfl | ⟨u, hu, hholds⟩
    · cases hus
    · cases List.mem_singleton.1 hu
      exact hn v hholds hadmits
  | t :: u :: us =>
    refine (parseMembers_covers h hparts path _ hothers).bind fun ns hns => ?_
    refine (enumAt_yields ms path).bind ?_
    rintro _ rfl
    refine ⟨rfl, fun v hv hadmits => ?_⟩
    rcases htyped v hv hadmits with rfl | ⟨t', ht', hholds⟩
    · cases hus
    · obtain ⟨n, hn, -, hcovers⟩ := hns t' ht'
      exact .union hn (hcovers v hholds hadmits) (hadmits.among_enum? h.values)

theorem covered_of_plain (h : Plain ms) (linked : Bool) : Covered linked ms := by
  induction h with
  | intro hkeywords _ _ hproperties hitems => exact shapeOf_covers hkeywords ⟨hproperties, hitems⟩

/-- **A node never rejects a value that its schema admits.** -/
theorem parse_admits (h : Plain ms) (links : Option Links) (name : Json) (isRequired : Bool) (path : Location)
    (l : Ledger) :
    ∃ n, (parse links (.obj ms) name isRequired path).outcome l = .ok n ∧ ∀ v, Admits ms v → n.Admits v := by
  have hpart := parsePart_covers (covered_of_plain h links.isSome) name isRequired path
  obtain ⟨n, hn, -, -, hadmits⟩ := hpart.outcome (links.getD .recording) l
  exact ⟨n, hn, hadmits⟩

/-! An order with its lines, and the schema of orders. -/

def lineSchema : Members :=
  [("type", .arr [.str "integer", .str "string"]), ("enum", .arr [.int 1, .str "gift", .int 1])]

def linesSchema : Members := [("type", .arr [.str "array", .str "null"]), ("items", .obj lineSchema)]

def orderSchema : Members :=
  [("type", .str "object"), ("properties", .obj [("lines", .obj linesSchema)]), ("required", .arr [.str "lines"])]

def order : Json := .obj [("lines", .arr [.str "gift", .int 1]), ("note", .null)]

theorem plain_lineSchema : Plain lineSchema := by
  refine .intro ?_ (fun _ _ h => absurd h List.not_mem_nil) (fun _ h => by cases h)
  exact {
    reference := rfl
    definitions := rfl
    types := by
      show ∀ v ∈ [Json.str "integer", .str "string"], NamesType v
      simp [NamesType, RawType.ofText?]
    values := by
      show ∀ w ∈ [Json.int 1, .str "gift", .int 1], w.isScalar = true
      simp [Json.isScalar]
    tidy := ⟨(by rintro _ _ (rfl | rfl) h <;> cases h), fun _ h => (by cases h)⟩
    properties := fun _ _ h => absurd h List.not_mem_nil
    items := fun _ h => by cases h }

theorem plain_linesSchema : Plain linesSchema := by
  refine .intro ?_ (fun _ _ h => absurd h List.not_mem_nil) (fun _ h => by cases h; exact plain_lineSchema)
  exact {
    reference := rfl
    definitions := rfl
    types := by
      show ∀ v ∈ [Json.str "array", .str "null"], NamesType v
      simp [NamesType, RawType.ofText?]
    values := fun _ h => by cases h
    tidy := ⟨(by rintro _ _ (rfl | rfl) h <;> cases h), fun _ h => (by cases h)⟩
    properties := fun _ _ h => absurd h List.not_mem_nil
    items := by
      rintro _ ⟨⟩
      exact .inr ⟨lineSchema, rfl, by simp [typeNames, lineSchema], by simp [typeNames, lineSchema]⟩ }

theorem plain_orderSchema : Plain orderSchema := by
  have hlines : ∀ e ∈ membersIn orderSchema "properties", e = ("lines", .obj linesSchema) :=
    fun _ he => List.mem_singleton.1 he
  refine .intro ?_ (fun _ _ h => by cases hlines _ h; exact plain_linesSchema) (fun _ h => by cases h)
  exact {
    reference := rfl
    definitions := rfl
    types := ⟨"object", .object, rfl, rfl⟩
    values := fun _ h => by cases h
    tidy := ⟨(by rintro _ _ (rfl | rfl) h <;> cases h; rfl), fun _ h => (by cases h; exact ⟨["lines"], rfl⟩)⟩
    properties := fun _ _ h => by cases hlines _ h; exact ⟨by decide, .inl rfl⟩
    items := fun _ h => by cases h }

theorem lineSchema_admits {w : Json} (h : w = .str "gift" ∨ w = .int 1) : Admits lineSchema w := by
  have htypes : Keywords.OfTypes lineSchema w := by
    rcases h with rfl | rfl
    · exact .inr ⟨"string", .string, by simp [typeNames, lineSchema], rfl, rfl⟩
    · exact .inr ⟨"integer", .integer, by simp [typeNames, lineSchema], rfl, rfl⟩
  have hlisted : w ∈ [Json.int 1, .str "gift", .int 1] := by rcases h with rfl | rfl <;> simp
  have hsame : w.sameScalar w = true := by rcases h with rfl | rfl <;> rfl
  refine .intro htypes (fun _ => ⟨w, hlisted, hsame⟩) ?_ ?_ ?_
  all_goals rcases h with rfl | rfl <;> intros <;> contradiction

theorem linesSchema_admits : Admits linesSchema (.arr [.str "gift", .int 1]) := by
  refine .intro (.inr ⟨"array", .array, by simp [typeNames, linesSchema], rfl, rfl⟩) ?_ ?_ ?_ ?_
  · rintro (h | h) <;> exact absurd rfl h
  · intros; contradiction
  · intros; contradiction
  · rintro vs is hvs his w hw
    cases hvs
    cases his
    exact lineSchema_admits (by simpa using hw)

theorem orderSchema_admits : Admits orderSchema order := by
  refine .intro (.inr ⟨"object", .object, by simp [typeNames, orderSchema], rfl, rfl⟩) ?_ ?_ ?_ ?_
  · rintro (h | h) <;> exact absurd rfl h
  · rintro vs ks k hvs hks hk
    cases hvs
    cases hks
    cases List.mem_singleton.1 hk
    exact ⟨_, rfl⟩
  · rintro vs k is w hvs his hw
    cases hvs
    cases List.mem_singleton.1 his
    cases hw
    exact linesSchema_admits
  · intros; contradiction

/-- The order is admitted by the node of its schema. -/
theorem parse_admits_order : Plain orderSchema ∧ Admits orderSchema order ∧
    ∃ n, (parse none (.obj orderSchema) (.str "Ordered") false Pointer.root).outcome {} = .ok n ∧ n.Admits order := by
  obtain ⟨n, hn, hadmits⟩ := parse_admits plain_orderSchema none (.str "Ordered") false Pointer.root {}
  exact ⟨plain_orderSchema, orderSchema_admits, n, hn, hadmits order orderSchema_admits⟩

end Parser
end TrackingPlan
