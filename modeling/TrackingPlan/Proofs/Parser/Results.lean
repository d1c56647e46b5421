import TrackingPlan.Proofs.Parser.Source
import TrackingPlan.Proofs.Resolver.Transparency
/-!
# Results — what the node of a schema is put together from

`Made` has a rule for each way in which a parse puts a node together from those of the schemas inside; of the shapes
of these it says what `S` does, and of custom types what `D` does.  When all rules keep `S`, it holds of every shape
that a parse ends with, with a resolver or without (`shape_results`): there is one statement for each part of a parse,
on all that it can end with (`ResultsIn`), and what is said of smaller values is assumed there.  So a fact on all parsed
nodes takes a look at the rules only.
-/
namespace TrackingPlan

/-! ## What a script can end with -/

namespace Script

variable {α β : Type}

theorem Ends.of_bind {s : Script α} {f : α → Script β} : ∀ {rs : List Request} {b : β}, (s >>= f).Ends rs b →
    ∃ rs₁ a rs₂, s.Ends rs₁ a ∧ (f a).Ends rs₂ b ∧ rs = rs₁ ++ rs₂ := by
  induction s with
  | done a => exact fun {rs b} h => ⟨[], a, rs, .done a, h, rfl⟩
  | fail f => intro rs b h; cases h
  | note x next ih =>
    intro rs b h
    cases h with
    | note h =>
      obtain ⟨rs₁, a, rs₂, h₁, h₂, rfl⟩ := ih h
      exact ⟨rs₁, a, rs₂, .note h₁, h₂, rfl⟩
  | reference ref place next ih =>
    intro rs b h
    cases h with
    | reference h =>
      obtain ⟨rs₁, a, rs₂, h₁, h₂, rfl⟩ := ih h
      exact ⟨_, a, rs₂, .reference h₁, h₂, rfl⟩
  | definition key place next ih =>
    intro rs b h
    cases h with
    | definition h =>
      obtain ⟨rs₁, a, rs₂, h₁, h₂, rfl⟩ := ih _ h
      exact ⟨_, a, rs₂, .definition h₁, h₂, rfl⟩

/-- **All that a script can end with**, as long as its requests are answered so that `K` holds, satisfies `Q`. -/
def ResultsIn (K : Request → Prop) (s : Script α) (Q : α → Prop) : Prop :=
  ∀ rs a, s.Ends rs a → (∀ q ∈ rs, K q) → Q a

namespace ResultsIn

variable {K : Request → Prop} {P Q : α → Prop} {R : β → Prop} {s : Script α}

theorem any (s : Script α) : s.ResultsIn K (fun _ => True) := fun _ _ _ _ => trivial

theorem pure {a : α} (h : Q a) : (Pure.pure a : Script α).ResultsIn K Q := by
  rintro _ _ ⟨⟩ _
  exact h

theorem fail (f : Fault) : (Script.fail f : Script α).ResultsIn K Q := by
  rintro _ _ ⟨⟩

theorem ofExcept (e : Except Fault α) : (Script.ofExcept e).ResultsIn K (fun a => e = .ok a) := by
  cases e with
  | ok a => exact .pure rfl
  | error f => exact .fail f

theorem imp (h : s.ResultsIn K P) (hQ : ∀ a, P a → Q a) : s.ResultsIn K Q := fun rs a ha hK => hQ a (h rs a ha hK)

theorem bind {f : α → Script β} (h : s.ResultsIn K P) (hf : ∀ a, P a → (f a).ResultsIn K R) :
    (s >>= f).ResultsIn K R := by
  intro rs b hb hK
  obtain ⟨rs₁, a, rs₂, h₁, h₂, rfl⟩ := hb.of_bind
  exact hf a (h rs₁ a h₁ fun q hq => hK q (List.mem_append_left _ hq)) rs₂ b h₂
    fun q hq => hK q (List.mem_append_right _ hq)

end ResultsIn

end Script

namespace Parser

open Keywords (Members)
open Script (Request)
open Sourced (ItemsOf)

/-! ## The rules -/

namespace Made

section

variable (S : Members → List RawType → Node → Prop)

/-- **A value that is parsed in full**: its shape by its own types, with its metadata. -/
structure InFull (v name : Json) (isRequired : Bool) (n : Node) : Prop where
  parsedAs : ParsedAs v name isRequired n
  described : ∃ ms ts m, v = .obj ms ∧ Keywords.types ms = .ok ts ∧ S ms ts m ∧
    n = Keywords.describe ms ts name isRequired m

/-- An item: in full when it is a reference, else its shape only. -/
inductive Item : Json → Node → Prop where
  | reference {is n} (href : (Keywords.reference? is).isSome = true) (h : InFull S (.obj is) .null false n) :
    Item (.obj is) n
  | shape {is ts n} (href : Keywords.reference? is = none) (hts : Keywords.types is = .ok ts) (h : S is ts n) :
    Item (.obj is) n

/-- **What an array of a schema has for items**, and the custom type that is recorded on it. -/
inductive Items (ms : Members) : Option String → Node → Prop where
  | anything (h : ∀ v, ¬ItemsOf ms v) : Items ms none .anything
  | reference {is n} (hv : ItemsOf ms (.obj is)) (href : (Keywords.reference? is).isSome = true)
    (h : InFull S (.obj is) .null false n) : Items ms n.info.refName n
  | untyped {is n} (hv : ItemsOf ms (.obj is)) (hu : isUntyped is = true) (h : S is [.array, .object] n) :
    Items ms none n
  | shape {is ts n} (hv : ItemsOf ms (.obj is)) (href : Keywords.reference? is = none)
    (hts : Keywords.types is = .ok ts) (h : S is ts n) : Items ms none n
  | several {vs ns} (hv : ItemsOf ms (.arr vs)) (hvs : 2 ≤ (vs.filter Json.isObject).length)
    (h : List.Forall₂ (Item S) (vs.filter Json.isObject) ns) : Items ms none (.union {} ns none)

variable (D : String → Node → Prop)

/-- **The definitions of a schema**: custom types, or those that it has of its own. -/
inductive Definitions (ms : Members) : Bool → List (String × Node) → Prop where
  | custom {ds} (h : List.Forall₂ (fun e d => d.1 = e.1 ∧ D d.1 d.2) (schemasIn ms "$defs") ds) :
    Definitions ms true ds
  | own {ds} (h : List.Forall₂ (fun e d => d.1 = e.1 ∧ InFull S e.2 (.str e.1) false d.2) (schemasIn ms "$defs") ds) :
    Definitions ms false ds

/-- **A schema as one of its types.** -/
inductive AsType (c : Bool) (ms : Members) : RawType → Node → Prop where
  | primitive {t p} (ht : t.kind = .primitive p) :
    AsType c ms t (.primitive {} p (if t = .null then some [.null] else Keywords.enum? ms))
  | object {required ps ds} (hrequired : Keywords.required ms = .ok required)
    (hps : List.Forall₂ (fun e p => InFull S e.2 (.str e.1) (required.contains e.1) p) (schemasIn ms "properties") ps)
    (hds : Definitions S D ms c ds) : AsType c ms .object (.object {} ps ds)
  | array {ref n} (h : Items S ms ref n) : AsType c ms .array (.array { refName := ref } n)

/-- **The shape of a schema by its types**, null aside: of none, of one, or the union of several. -/
inductive Shape (c : Bool) (ms : Members) (ts : List RawType) : Node → Prop where
  | any (hts : ts.filter (· ≠ .null) = []) :
    Shape c ms ts (.primitive {} .any (if ts = [.null] then some [.null] else Keywords.enum? ms))
  | one {t n} (hts : ts.filter (· ≠ .null) = [t]) (h : AsType S D c ms t n) : Shape c ms ts n
  | several {ns} (hts : 2 ≤ (ts.filter (· ≠ .null)).length)
    (h : List.Forall₂ (AsType S D c ms) (ts.filter (· ≠ .null)) ns) : Shape c ms ts (.union {} ns (Keywords.enum? ms))

end

end Made

/-! ## The parts of a parse -/

/-- Whether the definitions of a schema at this place are custom types. -/
def takesCustomTypes (linked : Bool) (path : Location) : Bool := decide (linked ∧ path = Pointer.root)

theorem takesCustomTypes_of_apart {linked : Bool} {path : Location} (h : Apart linked path) :
    takesCustomTypes linked path = false :=
  decide_eq_false h

section

variable {linked : Bool} {S : Bool → Members → List RawType → Node → Prop} {D : String → Node → Prop}
  {K : Request → Prop}

/-- **What is known of the shape of a value**, whatever types it is parsed by. -/
def ShapeResults (linked : Bool) (S : Bool → Members → List RawType → Node → Prop) (K : Request → Prop) (v : Json) :
    Prop :=
  ∀ ms, v = .obj ms → ∀ types path,
    ((view linked v).shape types path).ResultsIn K (S (takesCustomTypes linked path) ms types)

theorem typesAt_results (ms : Members) (path : Location) :
    (typesAt ms path).ResultsIn K (fun ts => Keywords.types ms = .ok ts) := by
  unfold typesAt
  split
  · next ts h => exact .pure h
  · exact .fail _

theorem enumAt_results (ms : Members) (path : Location) : (enumAt ms path).ResultsIn K (· = Keywords.enum? ms) :=
  (Script.ResultsIn.any _).bind fun _ _ => .pure rfl

theorem parsePart_results {v : Json} (h : ShapeResults linked S K v) (name : Json) (isRequired : Bool)
    (path : Location) : (parsePart (view linked v).toPart name isRequired path).ResultsIn K (fun n =>
      ∃ ms ts m, v = .obj ms ∧ Keywords.types ms = .ok ts ∧ S (takesCustomTypes linked path) ms ts m ∧
        n = Keywords.describe ms ts name isRequired m) := by
  unfold parsePart
  rw [view_raw]
  cases v with
  | obj ms =>
    refine (Script.ResultsIn.any _).bind fun _ _ => (typesAt_results ms path).bind fun ts hts => ?_
    exact (h ms rfl ts path).bind fun m hm => .pure ⟨ms, ts, m, rfl, hts, hm, rfl⟩
  | _ => exact .fail _

theorem parsePart_inFull {v : Json} (h : ShapeResults linked S K v) (name : Json) (isRequired : Bool)
    {path : Location} (hpath : Apart linked path) :
    (parsePart (view linked v).toPart name isRequired path).ResultsIn K (Made.InFull (S false) v name isRequired) := by
  intro rs n hends hrs
  have hresult := parsePart_results h name isRequired path rs n hends hrs
  rw [takesCustomTypes_of_apart hpath] at hresult
  refine ⟨fun path' => ?_, hresult⟩
  obtain ⟨rs', _, hends', rfl, -⟩ := (script_alike v name isRequired hpath (apart_plain path')).ends hends
  exact outcome_parse_none.2 ⟨rs', hends'⟩

/-! ### Objects -/

theorem schemas_cons (k : String) (v : Json) (ms : Members) :
    ((k, v) :: ms).filter (fun e => !e.2.isBool) =
      if v.isBool then ms.filter (fun e => !e.2.isBool) else (k, v) :: ms.filter (fun e => !e.2.isBool) := by
  rw [List.filter_cons]
  cases v.isBool <;> rfl

theorem membersOf_results (ms : Members) (key : String) :
    (Script.ofExcept (membersOf ((ms.lookup key).map (view linked)))).ResultsIn K
      (fun ps => ps = parts linked (membersIn ms key)) :=
  (Script.ResultsIn.ofExcept _).imp fun _ hps => (membersOf_ok hps).1

theorem parseProperties_results (required : List String) (path : Location) : ∀ {ms : Members},
    (∀ e ∈ ms, ShapeResults linked S K e.2) →
      (parseProperties required path (parts linked ms)).ResultsIn K
        (List.Forall₂ (fun e p => Made.InFull (S false) e.2 (.str e.1) (required.contains e.1) p)
          (ms.filter (fun e => !e.2.isBool)))
  | [], _ => .pure .nil
  | (k, v) :: rest, h => by
    have hrest := parseProperties_results required path fun e he => h e (List.mem_cons_of_mem _ he)
    rw [parts, List.map_cons, parseProperties, schemas_cons]
    simp only [view_raw]
    split
    · exact hrest
    · have hpart := parsePart_inFull (h _ List.mem_cons_self) (.str k) (required.contains k) (apart_property path k)
      exact hpart.bind fun p hp => hrest.bind fun ps hps => .pure (.cons hp hps)

/-- Definitions in order, by what is known of each. -/
theorem parseDefinitions_results {path : Location} {Q : String → Json → Node → Prop} : ∀ {ms : Members},
    (∀ e ∈ ms, (parseDefinition linked path e.1 (view linked e.2).toPart).ResultsIn K (Q e.1 e.2)) →
      (parseDefinitions linked path (parts linked ms)).ResultsIn K
        (List.Forall₂ (fun e d => d.1 = e.1 ∧ Q e.1 e.2 d.2) (ms.filter (fun e => !e.2.isBool)))
  | [], _ => .pure .nil
  | (k, v) :: rest, h => by
    have hrest := parseDefinitions_results fun e he => h e (List.mem_cons_of_mem _ he)
    rw [parts, List.map_cons, parseDefinitions, schemas_cons]
    simp only [view_raw]
    split
    · exact (Script.ResultsIn.any _).bind fun _ _ => hrest
    · exact (h _ List.mem_cons_self).bind fun n hn => hrest.bind fun ds hds => .pure (.cons ⟨rfl, hn⟩ hds)

theorem parseDefinition_custom (hK : ∀ key place n, K (.definition key place n) → D key n) {path : Location}
    (hpath : linked ∧ path = Pointer.root) (k : String) (p : Part) :
    (parseDefinition linked path k p).ResultsIn K (D k) := by
  rw [parseDefinition, if_pos hpath]
  intro rs n hends hrs
  cases hends with
  | definition h =>
    cases h
    exact hK _ _ _ (hrs _ List.mem_cons_self)

/-! ### Arrays -/

theorem parseItem_results {v : Json} (h : ShapeResults linked S K v) {path : Location} (hpath : Apart linked path) :
    (parseItem (view linked v).toPart path).ResultsIn K (Made.Item (S false) v) := by
  unfold parseItem
  simp only [view_raw]
  split
  · next is =>
    split
    · next href => exact (parsePart_inFull h .null false hpath).imp fun _ hn => .reference href hn
    · next href =>
      have hnone : Keywords.reference? is = none := by simpa using href
      refine (typesAt_results is path).bind fun ts hts => ?_
      have hshape := h is rfl ts path
      rw [takesCustomTypes_of_apart hpath] at hshape
      exact hshape.imp fun _ hn => .shape hnone hts hn
  · next hv =>
    refine (parsePart_inFull h .null false hpath).imp fun n hn => ?_
    obtain ⟨ms, _, _, rfl, -⟩ := hn.described
    exact absurd rfl (hv ms)

theorem singleItem_results {ms is : Members} (hv : ItemsOf ms (.obj is)) (h : ShapeResults linked S K (.obj is))
    {path : Location} (hpath : Apart linked path) :
    (singleItem (view linked (.obj is)).toPart path).ResultsIn K
      (fun m => ∃ ref n, m = .array { refName := ref } n ∧ Made.Items (S false) ms ref n) := by
  unfold singleItem
  rw [view_raw]
  simp only
  split
  · next href =>
    exact (parsePart_inFull h .null false hpath).bind fun n hn => .pure ⟨_, n, rfl, .reference hv href hn⟩
  · next href =>
    have hnone : Keywords.reference? is = none := by simpa using href
    split
    · next hu =>
      have huntyped : isUntyped is = true := by simp [isUntyped, hnone, hu]
      have hshape := h is rfl [.array, .object] path
      rw [takesCustomTypes_of_apart hpath] at hshape
      exact hshape.bind fun n hn => .pure ⟨none, n, rfl, .untyped hv huntyped hn⟩
    · refine (parseItem_results h hpath).bind fun n hn => .pure ⟨none, n, rfl, ?_⟩
      cases hn with
      | reference hsome => exact absurd hsome href
      | shape _ hts hn => exact .shape hv hnone hts hn

/-- The entries of an item list that are schemas, as they are parsed. -/
theorem schemaEntries_parts (path : Location) : ∀ (vs : List Json) (index : Nat),
    List.Forall₂ (fun v e => e.2 = (view linked v).toPart ∧ Apart linked e.1) (vs.filter Json.isObject)
      (schemaEntries path index (vs.map (fun v => (view linked v).toPart)))
  | [], _ => .nil
  | v :: vs, index => by
    have hrest := schemaEntries_parts path vs (index + 1)
    rw [List.map_cons, schemaEntries, List.filter_cons, view_raw]
    split
    · exact .cons ⟨rfl, apart_item path index⟩ hrest
    · exact hrest

theorem parseItems_results {vs : List Json} {es : List (Location × Part)}
    (h : List.Forall₂ (fun v e => e.2 = (view linked v).toPart ∧ Apart linked e.1) vs es)
    (hvs : ∀ v ∈ vs, ShapeResults linked S K v) :
    (parseItems es).ResultsIn K (List.Forall₂ (Made.Item (S false)) vs) := by
  induction h with
  | nil => exact .pure .nil
  | @cons v e vs es he _ ih =>
    obtain ⟨place, part⟩ := e
    obtain ⟨rfl, hplace⟩ := he
    have hrest := ih fun w hw => hvs w (List.mem_cons_of_mem _ hw)
    exact (parseItem_results (hvs v List.mem_cons_self) hplace).bind fun n hn =>
      hrest.bind fun ns hns => .pure (.cons hn hns)

variable {ms : Members} (hms : ∀ v, sizeOf v < sizeOf (Json.obj ms) → ShapeResults linked S K v)

include hms

theorem listShape_results {vs : List Json} (hl : ms.lookup "items" = some (.arr vs)) (path : Location) :
    (listShape (schemaEntries path 0 (vs.map (fun v => (view linked v).toPart)))).ResultsIn K
      (fun m => ∃ ref n, m = .array { refName := ref } n ∧ Made.Items (S false) ms ref n) := by
  have hvs : ∀ v ∈ vs.filter Json.isObject, ShapeResults linked S K v := fun v hv =>
    hms v (Nat.lt_trans (sizeOf_item (List.mem_filter.1 hv).1) (sizeOf_lookup hl))
  have hobj : ∀ v ∈ vs.filter Json.isObject, v.isObject = true := fun v hv => (List.mem_filter.1 hv).2
  have hentries := @schemaEntries_parts linked path vs 0
  generalize schemaEntries path 0 (vs.map (fun v => (view linked v).toPart)) = es at hentries
  generalize hws : vs.filter Json.isObject = ws at hentries hvs hobj
  cases hentries with
  | nil =>
    refine .pure ⟨none, .anything, rfl, .anything fun v hv => ?_⟩
    cases hv with
    | one h => rw [hl] at h; cases h
    | sole h h' => rw [hl] at h; cases h; rw [hws] at h'; cases h'
    | several h h' => rw [hl] at h; cases h; rw [hws] at h'; simp at h'
  | @cons v e _ _ he htail =>
    cases htail with
    | nil =>
      obtain ⟨place, part⟩ := e
      obtain ⟨rfl, hplace⟩ := he
      cases v with
      | obj is => exact singleItem_results (.sole hl hws) (hvs _ List.mem_cons_self) hplace
      | _ => cases hobj _ List.mem_cons_self
    | cons he' hrest =>
      have hlen : 2 ≤ (vs.filter Json.isObject).length := by
        rw [hws, List.length_cons, List.length_cons]
        omega
      refine (parseItems_results (.cons he (.cons he' hrest)) hvs).bind fun ns hns => .pure ⟨none, _, rfl, ?_⟩
      exact .several (.several hl hlen) hlen (hws ▸ hns)

theorem arrayShape_results (path : Location) :
    (arrayShape ((ms.map (fun e => (e.1, view linked e.2))).lookup "items") path).ResultsIn K
      (fun m => ∃ ref n, m = .array { refName := ref } n ∧ Made.Items (S false) ms ref n) := by
  have hnothing : (∀ is, ms.lookup "items" ≠ some (.obj is)) → (∀ vs, ms.lookup "items" ≠ some (.arr vs)) →
      Made.Items (S false) ms none .anything := fun hobj harr => by
    refine .anything fun v hv => ?_
    cases hv with
    | one h => exact hobj _ h
    | sole h | several h => exact harr _ h
  rw [lookup_views]
  cases hl : ms.lookup "items" with
  | none => exact .pure ⟨none, _, rfl, hnothing (by simp [hl]) (by simp [hl])⟩
  | some v =>
    rw [Option.map_some, arrayShape]
    simp only [view_raw]
    cases v with
    | obj is => exact singleItem_results (.one hl) (hms _ (sizeOf_lookup hl)) (apart_items path)
    | arr vs =>
      simp only [entries_view_arr]
      exact listShape_results hms hl path
    | _ => exact .pure ⟨none, _, rfl, hnothing (by simp [hl]) (by simp [hl])⟩

/-! ### Whole shapes -/

omit hms in
theorem primitiveShape_results (types : List RawType) (p : Primitive) (path : Location) :
    (primitiveShape ms types p path).ResultsIn K
      (· = .primitive {} p (if types = [.null] then some [.null] else Keywords.enum? ms)) := by
  refine (enumAt_results ms path).bind ?_
  rintro _ rfl
  exact .pure rfl

variable (hK : ∀ key place n, K (.definition key place n) → D key n)

include hK

theorem objectShape_results (path : Location) :
    (objectShape linked ms (ms.map (fun e => (e.1, view linked e.2))) path).ResultsIn K
      (Made.AsType (S false) D (takesCustomTypes linked path) ms .object) := by
  have hin : ∀ {key}, ∀ e ∈ membersIn ms key, ShapeResults linked S K e.2 :=
    fun e he => hms e.2 (sizeOf_membersIn he)
  unfold objectShape
  rw [lookup_views, lookup_views]
  refine (Script.ResultsIn.ofExcept _).bind fun required hrequired => ?_
  refine (membersOf_results ms "properties").bind ?_
  rintro _ rfl
  refine (parseProperties_results required path hin).bind fun ps hps => ?_
  refine (membersOf_results ms "$defs").bind ?_
  rintro _ rfl
  by_cases hpath : linked ∧ path = Pointer.root
  · refine (parseDefinitions_results (Q := fun k _ n => D k n) fun e _ =>
      parseDefinition_custom hK hpath e.1 _).bind fun ds hds => .pure (.object hrequired hps ?_)
    rw [takesCustomTypes, decide_eq_true hpath]
    refine .custom (hds.imp fun e d hd => ⟨hd.1, ?_⟩)
    rw [hd.1]
    exact hd.2
  · refine (parseDefinitions_results (Q := fun k v n => Made.InFull (S false) v (.str k) false n)
      fun e he => ?_).bind fun ds hds => .pure (.object hrequired hps ?_)
    · rw [parseDefinition, if_neg hpath]
      exact parsePart_inFull (hin e he) _ _ (apart_definition path e.1)
    · rw [takesCustomTypes_of_apart hpath]
      exact .own hds

theorem memberShape_results (path : Location) (t : RawType) :
    (memberShape linked ms (ms.map (fun e => (e.1, view linked e.2))) path t).ResultsIn K
      (Made.AsType (S false) D (takesCustomTypes linked path) ms t) := by
  have hprimitive : ∀ {t : RawType} {p : Primitive}, t.kind = .primitive p →
      (primitiveShape ms [t] p path).ResultsIn K (Made.AsType (S false) D (takesCustomTypes linked path) ms t) := by
    intro t p ht
    refine (primitiveShape_results [t] p path).imp ?_
    rintro _ rfl
    simp only [List.cons.injEq, and_true]
    exact .primitive ht
  cases t with
  | object => exact objectShape_results hms hK path
  | array =>
    refine (arrayShape_results hms path).imp ?_
    rintro _ ⟨ref, n, rfl, hn⟩
    exact .array hn
  | _ => exact hprimitive rfl

theorem parseMembers_results (path : Location) : ∀ ts : List RawType,
    (parseMembers linked ms (ms.map (fun e => (e.1, view linked e.2))) path ts).ResultsIn K
      (List.Forall₂ (Made.AsType (S false) D (takesCustomTypes linked path) ms) ts)
  | [] => .pure .nil
  | t :: ts => (memberShape_results hms hK path t).bind fun _ hn =>
    (parseMembers_results path ts).bind fun _ hns => .pure (.cons hn hns)

theorem shapeOf_results (types : List RawType) (path : Location) :
    (shapeOf linked ms (ms.map (fun e => (e.1, view linked e.2))) types path).ResultsIn K
      (Made.Shape (S false) D (takesCustomTypes linked path) ms types) := by
  unfold shapeOf
  split
  · next hts =>
    refine (primitiveShape_results types .any path).imp ?_
    rintro _ rfl
    exact .any hts
  · next t hts => exact (memberShape_results hms hK path t).imp fun _ hn => .one hts hn
  · next hnil hone =>
    refine (parseMembers_results hms hK path _).bind fun ns hns => (enumAt_results ms path).bind ?_
    rintro _ rfl
    refine .pure (.several ?_ hns)
    generalize types.filter (· ≠ .null) = us at hnil hone
    match us with
    | [] => exact absurd rfl hnil
    | [t] => exact absurd rfl (hone t)
    | _ :: _ :: _ => simp

end

/-- **What all rules keep holds of every shape**, by induction on the value. -/
theorem shape_results {linked : Bool} {S : Bool → Members → List RawType → Node → Prop} {D : String → Node → Prop}
    {K : Request → Prop} (hK : ∀ key place n, K (.definition key place n) → D key n)
    (hstep : ∀ c ms ts n, Made.Shape (S false) D c ms ts n → S c ms ts n) : ∀ v : Json, ShapeResults linked S K v
  | v => fun ms hv types path => by
    subst hv
    rw [shape_view_obj]
    exact (shapeOf_results (fun w _ => shape_results hK hstep w) hK types path).imp fun n hn => hstep _ ms types n hn
termination_by v => sizeOf v

/-! ## Parsed nodes -/

variable {S : Bool → Members → List RawType → Node → Prop} {raw name : Json} {isRequired : Bool} {path : Location}
  {n : Node}

/-- **What a parse without resolver ends with.** -/
theorem parse_results {D : String → Node → Prop}
    (hstep : ∀ c ms ts n, Made.Shape (S false) D c ms ts n → S c ms ts n) {l : Ledger}
    (h : (parse none raw name isRequired path).outcome l = .ok n) :
    ∃ ms ts m, raw = .obj ms ∧ Keywords.types ms = .ok ts ∧ S false ms ts m ∧
      n = Keywords.describe ms ts name isRequired m := by
  obtain ⟨rs, hends⟩ := outcome_parse_none.1 h
  -- no definition is asked for
  have hnone : ∀ q ∈ rs, ∀ key place m, q ≠ .definition key place m := by
    rintro q hq key place m rfl
    exact not_asked_definition ((hends.of_spec (script_keeps ..)).2 _ hq)
  have hshape : ShapeResults false S (fun q => ∀ key place m, q ≠ .definition key place m) raw :=
    shape_results (fun key place m hne => absurd rfl (hne key place m)) hstep raw
  have hresult := parsePart_results hshape name isRequired path rs n hends hnone
  rwa [takesCustomTypes_of_apart (fun hf => by cases hf.1)] at hresult

end Parser

namespace Resolver

section

variable {r : Resolver} {S : Bool → Keywords.Members → List RawType → Node → Prop} {D : String → Node → Prop}
  (hD : ∀ k node before, r.Registered before (.key k) node → D k node)
  (hstep : ∀ c ms ts n, Parser.Made.Shape (S false) D c ms ts n → S c ms ts n) {raw name : Json} {isRequired : Bool}
  {path : Location} {n : Node}

include hD hstep

/-- **What a linked parse ends with** by the answers of a registry, when `D` holds of custom types. -/
theorem Sound.results {reg : Registry} (h : r.Sound reg) {rs : List Script.Request}
    (hends : (Parser.script true raw name isRequired path).Ends rs n) (hrs : ∀ q ∈ rs, r.AnsweredBy reg q) :
    ∃ ms ts m, raw = .obj ms ∧ Keywords.types ms = .ok ts ∧ S (Parser.takesCustomTypes true path) ms ts m ∧
      n = Keywords.describe ms ts name isRequired m := by
  refine Parser.parsePart_results (Parser.shape_results ?_ hstep raw) name isRequired path rs n hends hrs
  intro key place m hm
  obtain ⟨before, after, he⟩ := List.append_of_mem hm
  exact hD key m before (h.at_entry he).2.2

/-- **What a parse with a resolver ends with.** -/
theorem parse_results {l : Ledger} (hl : r.Valid l) (h : (r.parse raw name isRequired path).outcome l = .ok n) :
    ∃ ms ts m, raw = .obj ms ∧ Keywords.types ms = .ok ts ∧ S (Parser.takesCustomTypes true path) ms ts m ∧
      n = Keywords.describe ms ts name isRequired m := by
  have hkeeps := parse_keeps raw name isRequired path hl
  obtain ⟨rs, hends, hrs⟩ := hkeeps.result n h
  exact hkeeps.step.valid.sound.results hD hstep hends hrs

end

end Resolver

end TrackingPlan
