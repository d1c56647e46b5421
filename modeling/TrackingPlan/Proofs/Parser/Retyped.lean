import TrackingPlan.Proofs.Resolver.Transparency
import TrackingPlan.Proofs.Retyped
/-!
# Only the set of types matters

What is parsed from retyped schemas differs at most in the order of the members of unions.  There is one statement for
each part of a parse, as for other comparisons of parses; what is said of smaller values is assumed there, and in the
end shown for all (`shape_retyped`).
-/
namespace TrackingPlan

open Keywords (Members)

/-! ## Parts of a parse -/

namespace Parser

open Node (Regrouped RegroupedEntry)
open Script (alongside_bind alongside_bind_self)

variable {reference : String → Location → Except Fault Unit} {definition : String → Location → Except Fault Node}

section

variable (reference definition)

/-- **The shapes of two values are the same but for the members of unions**, by the same types in any order. -/
def ShapeRegrouped (v w : Json) : Prop :=
  ∀ ms ns, v = .obj ms → w = .obj ns → ∀ ts us path, ts.Perm us →
    Alongside Regrouped (((view false v).shape ts path).answer reference definition)
      (((view false w).shape us path).answer reference definition)

end

theorem typesAt_retyped {ms ns : Members} (h : RetypedSchema ms ns) (path : Location) :
    Alongside List.Perm ((typesAt ms path).answer reference definition)
      ((typesAt ns path).answer reference definition) := by
  obtain ⟨hiff, hperm⟩ := Keywords.types_of_sameNames (Keywords.mem_typeNames_iff (h.sameTypes))
  unfold typesAt
  cases hms : Keywords.types ms with
  | ok ts =>
    obtain ⟨us, hns⟩ := hiff.1 ⟨ts, hms⟩
    rw [hns]
    exact .ok (hperm ts us hms hns)
  | error x =>
    cases hns : Keywords.types ns with
    | ok us =>
      obtain ⟨ts, hts⟩ := hiff.2 ⟨us, hns⟩
      rw [hms] at hts
      cases hts
    | error y => exact .error _ _

theorem parsePart_retyped {v w : Json} (hvw : Retyped v w) (h : ShapeRegrouped reference definition v w) (name : Json)
    (isRequired : Bool) (path : Location) :
    Alongside Regrouped ((parsePart (view false v).toPart name isRequired path).answer reference definition)
      ((parsePart (view false w).toPart name isRequired path).answer reference definition) := by
  unfold parsePart
  rw [view_raw, view_raw]
  rcases hvw.cases with ⟨ms, ns, rfl, rfl, hks⟩ | ⟨rfl, hobject⟩
  · have hfollow : follow ms path = follow ns path := by rw [follow, follow, hks.reference?]
    simp only [hfollow]
    refine alongside_bind_self _ fun _ => alongside_bind (typesAt_retyped hks path) fun ts us hts => ?_
    refine alongside_bind (h ms ns rfl rfl ts us path hts) fun n m hn => ?_
    have hdetails := hks.details
    rw [hdetails.describe (Keywords.admitsNull_perm hdetails hts) (congrArg _ (hks.reference?))]
    exact .ok (hn.withInfo _)
  · cases v with
    | obj => cases hobject
    | _ => exact .error _ _

/-! ### Objects -/

theorem isBool_retyped {v w : Json} (h : Retyped v w) : v.isBool = w.isBool := by
  rcases h.cases with ⟨ms, ns, rfl, rfl, -⟩ | ⟨rfl, -⟩ <;> rfl

theorem parseProperties_retyped (required : List String) (path : Location) {ds es : Members}
    (h : List.Forall₂ RetypedEntry ds es)
    (hin : ∀ e ∈ ds, ∀ w, Retyped e.2 w → ShapeRegrouped reference definition e.2 w) :
    Alongside (List.Forall₂ Regrouped)
      ((parseProperties required path (parts false ds)).answer reference definition)
      ((parseProperties required path (parts false es)).answer reference definition) := by
  induction h with
  | nil => exact .ok .nil
  | @cons e f ds es he _ ih =>
    have hrest := ih fun e' he' => hin e' (List.mem_cons_of_mem _ he')
    cases he with
    | @entry k v w hvw =>
      rw [parts, parts, List.map_cons, List.map_cons, parseProperties, parseProperties]
      simp only [view_raw, ← isBool_retyped hvw]
      split
      · exact hrest
      · have hshape := hin (k, v) List.mem_cons_self w hvw
        refine alongside_bind (parsePart_retyped hvw hshape _ _ _) fun n m hn => ?_
        exact alongside_bind hrest fun ns ms hns => .ok (.cons hn hns)

theorem parseDefinitions_retyped (path : Location) {ds es : Members} (h : List.Forall₂ RetypedEntry ds es)
    (hin : ∀ e ∈ ds, ∀ w, Retyped e.2 w → ShapeRegrouped reference definition e.2 w) :
    Alongside (List.Forall₂ RegroupedEntry)
      ((parseDefinitions false path (parts false ds)).answer reference definition)
      ((parseDefinitions false path (parts false es)).answer reference definition) := by
  induction h with
  | nil => exact .ok .nil
  | @cons e f ds es he _ ih =>
    have hrest := ih fun e' he' => hin e' (List.mem_cons_of_mem _ he')
    cases he with
    | @entry k v w hvw =>
      rw [parts, parts, List.map_cons, List.map_cons, parseDefinitions, parseDefinitions]
      simp only [view_raw, ← isBool_retyped hvw]
      split
      · exact hrest
      · have hshape := hin (k, v) List.mem_cons_self w hvw
        rw [parseDefinition, if_neg (apart_plain path), parseDefinition, if_neg (apart_plain path)]
        refine alongside_bind (parsePart_retyped hvw hshape _ _ _) fun n m hn => ?_
        exact alongside_bind hrest fun ns ms hns => .ok (.cons (.entry k hn) hns)

section

variable {ms ns : Members} (h : RetypedSchema ms ns)

include h

/-- What a keyword holds by name, as parts. -/
theorem membersOf_retyped {key : String} (hkey : key = "properties" ∨ key = "$defs") :
    Alongside (fun ps qs => ∃ ds es, ps = parts false ds ∧ qs = parts false es ∧ List.Forall₂ RetypedEntry ds es ∧
        ∀ e ∈ ds, e ∈ membersIn ms key)
      ((Script.ofExcept (membersOf ((ms.lookup key).map (view false)))).answer reference definition)
      ((Script.ofExcept (membersOf ((ns.lookup key).map (view false)))).answer reference definition) := by
  rw [Script.answer_ofExcept, Script.answer_ofExcept]
  rcases h.members hkey with ⟨he, hobject⟩ | ⟨ds, es, hds, hes, hentries⟩
  · rw [← he]
    cases hps : membersOf ((ms.lookup key).map (view false)) with
    | error f => exact .error f f
    | ok ps =>
      obtain ⟨rfl, -⟩ := membersOf_ok hps
      have hnil : membersIn ms key = [] := by
        unfold membersIn
        split
        · next ds hds => exact absurd hds (hobject ds)
        · rfl
      rw [hnil]
      exact .ok ⟨[], [], rfl, rfl, .nil, fun _ he => absurd he List.not_mem_nil⟩
  · rw [hds, hes, Option.map_some, Option.map_some, membersOf, membersOf, view_raw, view_raw, members_view_obj,
      members_view_obj]
    refine .ok ⟨ds, es, rfl, rfl, hentries, fun e he => ?_⟩
    rw [membersIn, hds]
    exact he

variable (hin : ∀ v w, sizeOf v < sizeOf (Json.obj ms) → Retyped v w → ShapeRegrouped reference definition v w)

include hin

theorem objectShape_retyped (path : Location) :
    Alongside Regrouped
      ((objectShape false ms (ms.map (fun e => (e.1, view false e.2))) path).answer reference definition)
      ((objectShape false ns (ns.map (fun e => (e.1, view false e.2))) path).answer reference definition) := by
  have hmember : ∀ key, ∀ e ∈ membersIn ms key, ∀ w, Retyped e.2 w → ShapeRegrouped reference definition e.2 w :=
    fun key e he w => hin e.2 w (sizeOf_membersIn he)
  unfold objectShape
  rw [h.details.required]
  simp only [lookup_views]
  refine alongside_bind_self _ fun required => ?_
  refine alongside_bind (membersOf_retyped h (.inl rfl)) ?_
  rintro _ _ ⟨ds, es, rfl, rfl, hentries, hds⟩
  refine alongside_bind (parseProperties_retyped required path hentries fun e he => hmember _ e (hds e he)) ?_
  intro ps qs hps
  refine alongside_bind (membersOf_retyped h (.inr rfl)) ?_
  rintro _ _ ⟨ds, es, rfl, rfl, hentries, hds⟩
  refine alongside_bind (parseDefinitions_retyped path hentries fun e he => hmember _ e (hds e he)) ?_
  exact fun ds es hdefs => .ok (.object {} hps hdefs)

end

/-! ### Arrays -/

theorem parseItem_retyped {v w : Json} (hvw : Retyped v w) (h : ShapeRegrouped reference definition v w)
    (path : Location) :
    Alongside Regrouped ((parseItem (view false v).toPart path).answer reference definition)
      ((parseItem (view false w).toPart path).answer reference definition) := by
  have hpart := parsePart_retyped hvw h .null false path
  unfold parseItem
  rw [view_raw, view_raw]
  rcases hvw.cases with ⟨ms, ns, rfl, rfl, hks⟩ | ⟨rfl, hobject⟩
  · simp only [hks.reference?]
    split
    · exact hpart
    · exact alongside_bind (typesAt_retyped hks path) fun ts us hts => h ms ns rfl rfl ts us path hts
  · cases v with
    | obj => cases hobject
    | _ => exact hpart

theorem singleItem_retyped {v w : Json} (hvw : Retyped v w) (h : ShapeRegrouped reference definition v w)
    (path : Location) :
    Alongside Regrouped ((singleItem (view false v).toPart path).answer reference definition)
      ((singleItem (view false w).toPart path).answer reference definition) := by
  unfold singleItem
  rw [view_raw, view_raw]
  rcases hvw.cases with ⟨ms, ns, rfl, rfl, hks⟩ | ⟨rfl, hobject⟩
  · simp only [hks.reference?, hks.isTypeless]
    split
    · refine alongside_bind (parsePart_retyped hvw h _ _ _) fun n m hn => ?_
      rw [hn.info_eq]
      exact .ok (.array _ hn)
    · split
      · exact alongside_bind (h ms ns rfl rfl _ _ path (.refl _)) fun n m hn => .ok (.array {} hn)
      · exact alongside_bind (parseItem_retyped hvw h path) fun n m hn => .ok (.array {} hn)
  · cases v with
    | obj => cases hobject
    | _ => exact .ok (.array {} (.primitive ..))

section

variable (reference definition)

/-- The same place for schemas that are retyped, in an item list. -/
inductive RetypedItem : Location × Part → Location × Part → Prop where
  | item (path : Location) {v w} (hvw : Retyped v w) (h : ShapeRegrouped reference definition v w) :
    RetypedItem (path, (view false v).toPart) (path, (view false w).toPart)

end

theorem schemaEntries_retyped (path : Location) {vs ws : List Json} (h : List.Forall₂ Retyped vs ws)
    (hin : ∀ v ∈ vs, ∀ w, Retyped v w → ShapeRegrouped reference definition v w) (index : Nat) :
    List.Forall₂ (RetypedItem reference definition)
      (schemaEntries path index (vs.map (fun v => (view false v).toPart)))
      (schemaEntries path index (ws.map (fun w => (view false w).toPart))) := by
  induction h generalizing index with
  | nil => exact .nil
  | @cons v w vs ws hvw _ ih =>
    have hrest := ih (fun v' hv' => hin v' (List.mem_cons_of_mem _ hv')) (index + 1)
    have hobject : v.isObject = w.isObject := by
      rcases hvw.cases with ⟨ms, ns, rfl, rfl, -⟩ | ⟨rfl, -⟩ <;> rfl
    rw [List.map_cons, List.map_cons, schemaEntries, schemaEntries, view_raw, view_raw, hobject]
    split
    · exact .cons (.item _ hvw (hin v List.mem_cons_self w hvw)) hrest
    · exact hrest

theorem parseItems_retyped {es fs : List (Location × Part)}
    (h : List.Forall₂ (RetypedItem reference definition) es fs) :
    Alongside (List.Forall₂ Regrouped) ((parseItems es).answer reference definition)
      ((parseItems fs).answer reference definition) := by
  induction h with
  | nil => exact .ok .nil
  | cons he _ ih =>
    cases he with
    | item path hvw h =>
      exact alongside_bind (parseItem_retyped hvw h path) fun _ _ hn =>
        alongside_bind ih fun _ _ hns => .ok (.cons hn hns)

theorem listShape_retyped {es fs : List (Location × Part)} (h : List.Forall₂ (RetypedItem reference definition) es fs) :
    Alongside Regrouped ((listShape es).answer reference definition) ((listShape fs).answer reference definition) := by
  cases h with
  | nil => exact .ok (.array {} (.primitive ..))
  | cons he hes =>
    cases hes with
    | nil => cases he with | item path hvw h => exact singleItem_retyped hvw h path
    | cons he' hes =>
      exact alongside_bind (parseItems_retyped (.cons he (.cons he' hes))) fun _ _ hns =>
        .ok (.array {} (.union {} none hns (.refl _)))

/-! ### Whole shapes -/

section

variable {ms ns : Members} (h : RetypedSchema ms ns)
  (hin : ∀ v w, sizeOf v < sizeOf (Json.obj ms) → Retyped v w → ShapeRegrouped reference definition v w)

include h

theorem primitiveShape_retyped {ts us : List RawType} (hts : ts.Perm us) (k : Primitive) (path : Location) :
    Alongside Regrouped ((primitiveShape ms ts k path).answer reference definition)
      ((primitiveShape ns us k path).answer reference definition) := by
  unfold primitiveShape
  simp only [h.details.enumAt, Keywords.singleton_null_iff hts]
  exact alongside_bind_self _ fun _ => .ok (.primitive ..)

include hin

theorem arrayShape_retyped (path : Location) :
    Alongside Regrouped
      ((arrayShape ((ms.map (fun e => (e.1, view false e.2))).lookup "items") path).answer reference definition)
      ((arrayShape ((ns.map (fun e => (e.1, view false e.2))).lookup "items") path).answer reference definition) := by
  have hlist : ∀ vs ws, List.Forall₂ Retyped vs ws → ms.lookup "items" = some (.arr vs) → Alongside Regrouped
      ((listShape (schemaEntries path 0 (vs.map (fun v => (view false v).toPart)))).answer reference definition)
      ((listShape (schemaEntries path 0 (ws.map (fun w => (view false w).toPart)))).answer reference definition) :=
    fun vs ws hvs hl => listShape_retyped (schemaEntries_retyped path hvs
      (fun v hv w => hin v w (Nat.lt_trans (sizeOf_item hv) (sizeOf_lookup hl))) 0)
  have hitems := h.items
  rw [lookup_views, lookup_views]
  cases hms : ms.lookup "items" with
  | none =>
    cases hns : ns.lookup "items" with
    | none => exact .ok (.array {} (.primitive ..))
    | some w => rw [hms, hns] at hitems; cases hitems
  | some v =>
    cases hns : ns.lookup "items" with
    | none => rw [hms, hns] at hitems; cases hitems
    | some w =>
      rw [hms, hns] at hitems
      cases hitems with
      | some hvw =>
        rw [Option.map_some, Option.map_some, arrayShape, arrayShape, view_raw, view_raw]
        rcases hvw with hvw | ⟨vs, ws, rfl, rfl, hvs⟩
        · have hshape := hin v w (sizeOf_lookup hms) hvw
          rcases hvw.cases with ⟨is, js, rfl, rfl, -⟩ | ⟨rfl, hobject⟩
          · exact singleItem_retyped hvw hshape _
          · cases v with
            | obj => cases hobject
            | arr vs =>
              rw [entries_view_arr]
              exact hlist vs vs (List.forall₂_same.2 fun v _ => .same v) hms
            | _ => exact .ok (.array {} (.primitive ..))
        · rw [entries_view_arr, entries_view_arr]
          exact hlist vs ws hvs hms

theorem memberShape_retyped (path : Location) (t : RawType) :
    Alongside Regrouped
      ((memberShape false ms (ms.map (fun e => (e.1, view false e.2))) path t).answer reference definition)
      ((memberShape false ns (ns.map (fun e => (e.1, view false e.2))) path t).answer reference definition) := by
  cases t with
  | object => exact objectShape_retyped h hin path
  | array => exact arrayShape_retyped h hin path
  | _ => exact primitiveShape_retyped h (.refl _) _ path

omit h hin in
/-- The members of a union are parsed one after the other. -/
theorem answer_parseMembers (linked : Bool) (ms : Members) (vs : List (String × View)) (path : Location) :
    ∀ ts : List RawType, (parseMembers linked ms vs path ts).answer reference definition =
      ts.mapM fun t => (memberShape linked ms vs path t).answer reference definition
  | [] => rfl
  | t :: ts => by
    rw [parseMembers, List.mapM_cons, Script.answer_bind]
    simp only [Script.answer_bind, answer_parseMembers linked ms vs path ts]
    rfl

theorem parseMembers_retyped (path : Location) : ∀ ts : List RawType,
    Alongside (List.Forall₂ Regrouped)
      ((parseMembers false ms (ms.map (fun e => (e.1, view false e.2))) path ts).answer reference definition)
      ((parseMembers false ns (ns.map (fun e => (e.1, view false e.2))) path ts).answer reference definition)
  | [] => .ok .nil
  | t :: ts => alongside_bind (memberShape_retyped h hin path t) fun _ _ hn =>
      alongside_bind (parseMembers_retyped path ts) fun _ _ hns => .ok (.cons hn hns)

/-- **The members of a union by types in another order** are its members in another order. -/
theorem parseMembers_regrouped {ts us : List RawType} (hts : ts.Perm us) (path : Location) :
    Alongside (Relation.Comp (List.Forall₂ Regrouped) List.Perm)
      ((parseMembers false ms (ms.map (fun e => (e.1, view false e.2))) path ts).answer reference definition)
      ((parseMembers false ns (ns.map (fun e => (e.1, view false e.2))) path us).answer reference definition) := by
  refine (parseMembers_retyped h hin path ts).comp ?_
  rw [answer_parseMembers, answer_parseMembers]
  exact .mapM_perm _ hts

theorem shapeOf_retyped {ts us : List RawType} (hts : ts.Perm us) (path : Location) :
    Alongside Regrouped
      ((shapeOf false ms (ms.map (fun e => (e.1, view false e.2))) ts path).answer reference definition)
      ((shapeOf false ns (ns.map (fun e => (e.1, view false e.2))) us path).answer reference definition) := by
  have hfilter := hts.filter (· ≠ .null)
  unfold shapeOf
  rcases Keywords.perm_cases hfilter with ⟨hts', hus'⟩ | ⟨t, hts', hus'⟩ | ⟨_, _, _, _, _, _, hts', hus'⟩
  · rw [hts', hus']
    exact primitiveShape_retyped h hts .any path
  · rw [hts', hus']
    exact memberShape_retyped h hin path t
  · rw [hts', hus'] at hfilter ⊢
    refine alongside_bind (parseMembers_regrouped h hin hfilter path) ?_
    rintro ns ns' ⟨ks, hks, hperm⟩
    rw [h.details.enumAt]
    exact alongside_bind_self _ fun e => .ok (.union {} e hks hperm)

end

/-- **The shapes of retyped values** are the same but for the members of unions, by induction on the value. -/
theorem shape_retyped : ∀ v w : Json, Retyped v w → ShapeRegrouped reference definition v w
  | v, w, hvw => fun ms ns hv hw ts us path hts => by
    subst hv hw
    have hks : RetypedSchema ms ns := by
      rcases hvw.cases with ⟨_, _, he, he', hks⟩ | ⟨-, hobject⟩
      · cases he
        cases he'
        exact hks
      · cases hobject
    rw [shape_view_obj, shape_view_obj]
    exact shapeOf_retyped hks (fun v w _ => shape_retyped v w) hts path
termination_by v => sizeOf v

/-! ## Parses -/

/-- **Only the set of types matters.**  A schema whose types are named in another order or number, or by themselves in
place of a list, at any depth, is parsed just when the first one is, and then to the same node but for the order of the
members of unions. -/
theorem parse_retyped {v w : Json} (h : Retyped v w) (name : Json) (isRequired : Bool) (path : Location)
    (l l' : Ledger) :
    ((∃ n, (parse none v name isRequired path).outcome l = .ok n) ↔
      ∃ m, (parse none w name isRequired path).outcome l' = .ok m) ∧
    ∀ n m, (parse none v name isRequired path).outcome l = .ok n →
      (parse none w name isRequired path).outcome l' = .ok m → n.Regrouped m := by
  have halong : Alongside Regrouped ((parse none v name isRequired path).outcome l)
      ((parse none w name isRequired path).outcome l') := by
    rw [outcome_parse_plain, outcome_parse_plain]
    exact parsePart_retyped h (shape_retyped v w h) name isRequired path
  exact ⟨halong.succeeds_iff, fun n m hn hm => halong.related hn hm⟩

/-- A list of counts or records, by the types of the list, of its items and of the text in a record. -/
def counts (list item text : Json) : Members :=
  [("type", list), ("items", .obj [("type", item), ("properties", .obj [("note", .obj [("type", text)])])])]

/-- Each type by itself or named once, and the same types in another order and number. -/
def countsOnce : Members := counts (.str "array") (.arr [.str "integer", .str "object"])
  (.arr [.str "string", .str "null"])
def countsTwice : Members := counts (.arr [.str "array"]) (.arr [.str "object", .str "integer", .str "object"])
  (.arr [.str "null", .str "string"])

theorem sameTypes_swap (s t : String) : SameTypes (.arr [.str s, .str t]) (.arr [.str t, .str s]) := by
  refine .inr ⟨_, _, rfl, rfl, fun x => ?_⟩
  simp only [List.mem_cons, List.not_mem_nil, or_false]
  exact or_comm

theorem retyped_counts : Retyped (.obj countsOnce) (.obj countsTwice) := by
  have hlist : SameTypes (.str "array") (.arr [.str "array"]) := .inr ⟨_, _, rfl, rfl, fun _ => Iff.rfl⟩
  have hitem : SameTypes (.arr [.str "integer", .str "object"])
      (.arr [.str "object", .str "integer", .str "object"]) := by
    refine .inr ⟨_, _, rfl, rfl, fun x => ?_⟩
    simp only [List.mem_cons, List.not_mem_nil, or_false]
    tauto
  have hnote : Retyped (.obj [("type", .arr [.str "string", .str "null"])])
      (.obj [("type", .arr [.str "null", .str "string"])]) :=
    .schema (.cons (.types rfl (sameTypes_swap "string" "null")) .nil)
  have hproperties := RetypedKeyword.schemas (.inl rfl) (.cons (.entry "note" hnote) .nil)
  exact .schema (.cons (.types rfl hlist)
    (.cons (.items rfl (.schema (.cons (.types rfl hitem) (.cons hproperties .nil)))) .nil))

/-- The list, by what its items are. -/
def countsNode (members : List Node) : Node := .array {} (.union {} members none)

def countNode : Node := .primitive {} .integer none
def recordNode : Node := .object {} [.primitive { name := .str "note", isNullable := true } .string none] []

theorem countsOnce_outcome : (parse none (.obj countsOnce) .null false Pointer.root).outcome {} =
    .ok (countsNode [countNode, recordNode]) := by
  rfl

theorem countsTwice_outcome : (parse none (.obj countsTwice) .null false Pointer.root).outcome {} =
    .ok (countsNode [recordNode, countNode]) := by
  rfl

/-- Two ways to name the types of a list, of its items and of what is in them: the items are counts or records, or
records or counts. -/
theorem parse_retyped_counts : Retyped (.obj countsOnce) (.obj countsTwice) ∧
    (parse none (.obj countsOnce) .null false Pointer.root).outcome {} = .ok (countsNode [countNode, recordNode]) ∧
    (parse none (.obj countsTwice) .null false Pointer.root).outcome {} = .ok (countsNode [recordNode, countNode]) ∧
    (countsNode [countNode, recordNode]).Regrouped (countsNode [recordNode, countNode]) := by
  obtain ⟨-, hsame⟩ := parse_retyped retyped_counts .null false Pointer.root {} {}
  exact ⟨retyped_counts, countsOnce_outcome, countsTwice_outcome, hsame _ _ countsOnce_outcome countsTwice_outcome⟩

end Parser
end TrackingPlan
