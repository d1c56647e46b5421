import TrackingPlan.Schema.Record
import TrackingPlan.Table
/-!
# Record — a node comes back from its record

`ofRecord?` reads a record by its keys: what is not there is empty, absent or false, as it was left out.  The entries
that all nodes have and those of one kind are under different keys, so each is found (`lookup_info`, `lookup_own`), and
by induction over the tree a node with texts for names comes back from its record (`ofRecord?_record`).  No two such
nodes have one record.
-/
namespace TrackingPlan

variable {key : String} {v : Json} {rest : List (String × Json)}

/-! ## Looking up what may be left out -/

theorem lookup_entryIf_self (present : Bool) :
    (entryIf present key v ++ rest).lookup key = if present then some v else rest.lookup key := by
  cases present with
  | true => exact List.lookup_cons_self
  | false => rfl

theorem lookup_entryIf_of_ne {k : String} (h : k ≠ key) (present : Bool) :
    (entryIf present key v ++ rest).lookup k = rest.lookup k := by
  cases present with
  | true => simp [entryIf, List.lookup_cons, beq_false_of_ne h]
  | false => rfl

theorem lookup_entryOf_self (o : Option Json) : (entryOf key o ++ rest).lookup key = (o <|> rest.lookup key) := by
  cases o with
  | some v => exact List.lookup_cons_self
  | none => rfl

theorem lookup_entryOf_of_ne {k : String} (h : k ≠ key) (o : Option Json) :
    (entryOf key o ++ rest).lookup k = rest.lookup k := by
  cases o with
  | some v => simp [entryOf, List.lookup_cons, beq_false_of_ne h]
  | none => rfl

/-! ## What nodes of every kind carry -/

namespace Info

/-- The keys of what nodes of every kind carry. -/
def keys : List String :=
  ["name", "identifier_name", "description", "is_required", "is_nullable", "ref_name", "keywords"]

/-- Reads what a record says of any node. -/
def ofEntries (ms : List (String × Json)) : Info where
  name := (ms.lookup "name").getD (.str "")
  identifierName := ms.lookup "identifier_name"
  description := ms.lookup "description"
  isRequired := (ms.lookup "is_required").isSome
  isNullable := (ms.lookup "is_nullable").isSome
  refName := match ms.lookup "ref_name" with
    | some (.str s) => some s
    | _ => none
  keywords := match ms.lookup "keywords" with
    | some (.obj kws) => kws
    | _ => []

theorem lookup_own (i : Info) (h : key ∉ keys) : (i.entries ++ rest).lookup key = rest.lookup key := by
  simp only [keys, List.mem_cons, List.not_mem_nil, or_false, not_or] at h
  obtain ⟨hname, hidentifier, hdescription, hrequired, hnullable, href, hkeywords⟩ := h
  simp only [entries, List.append_assoc, lookup_entryIf_of_ne hname, lookup_entryOf_of_ne hidentifier,
    lookup_entryOf_of_ne hdescription, lookup_entryIf_of_ne hrequired, lookup_entryIf_of_ne hnullable,
    lookup_entryOf_of_ne href, lookup_entryIf_of_ne hkeywords]

theorem lookup_entries (i : Info) (hrest : ∀ k ∈ keys, rest.lookup k = none) :
    (i.entries ++ rest).lookup "name" = (if i.name.isGiven then some i.name else none) ∧
    (i.entries ++ rest).lookup "identifier_name" = i.identifierName ∧
    (i.entries ++ rest).lookup "description" = i.description ∧
    (i.entries ++ rest).lookup "is_required" = (if i.isRequired then some (.bool true) else none) ∧
    (i.entries ++ rest).lookup "is_nullable" = (if i.isNullable then some (.bool true) else none) ∧
    (i.entries ++ rest).lookup "ref_name" = i.refName.map .str ∧
    (i.entries ++ rest).lookup "keywords" = (if i.keywords.isEmpty then none else some (.obj i.keywords)) := by
  have hnone : ∀ o : Option Json, (o <|> none) = o := fun o => by cases o <;> rfl
  simp only [keys, List.forall_mem_cons] at hrest
  obtain ⟨hname, hidentifier, hdescription, hrequired, hnullable, href, hkeywords, -⟩ := hrest
  simp (disch := decide) only [entries, List.append_assoc, lookup_entryIf_self, lookup_entryIf_of_ne,
    lookup_entryOf_self, lookup_entryOf_of_ne, hname, hidentifier, hdescription, hrequired, hnullable, href, hkeywords,
    hnone, true_and]
  cases i.keywords <;> rfl

/-- **What every node carries comes back**, when its name is a text and the entries of its kind are under other keys. -/
theorem ofEntries_entries (i : Info) (hname : ∃ s, i.name = .str s) (hrest : ∀ k ∈ keys, rest.lookup k = none) :
    ofEntries (("kind", v) :: (i.entries ++ rest)) = i := by
  obtain ⟨hn, hidentifier, hdescription, hrequired, hnullable, href, hkeywords⟩ := i.lookup_entries hrest
  have hkind : ∀ k ∈ keys, ∀ es : List (String × Json), (("kind", v) :: es).lookup k = es.lookup k := by
    intro k hk es
    have hne : k ≠ "kind" := fun he => by subst he; revert hk; decide
    rw [List.lookup_cons, beq_false_of_ne hne]
  simp (disch := decide) only [ofEntries, hkind, hn, hidentifier, hdescription, hrequired, hnullable, href, hkeywords]
  obtain ⟨name, identifierName, description, isRequired, isNullable, refName, keywords⟩ := i
  obtain ⟨s, rfl⟩ := hname
  simp only [Info.mk.injEq, true_and]
  refine ⟨?_, ?_, ?_, ?_, ?_⟩
  · by_cases hs : s = ""
    · simp [hs, Json.isGiven]
    · simp [hs, Json.isGiven]
  · cases isRequired <;> rfl
  · cases isNullable <;> rfl
  · cases refName <;> rfl
  · cases keywords <;> rfl

end Info

/-! ## Reading records -/

theorem Kind.ofText?_text (k : Kind) : Kind.ofText? k.text = some k := by
  rcases k with ⟨_ | _ | _ | _ | _⟩ | _ | _ | _ <;> decide

namespace Node

/-- A value as what it can stand for in a record: a node, a list of them, or a table of them. -/
structure Reading where
  node? : Option Node := none
  nodes? : Option (List Node) := none
  table? : Option (List (String × Node)) := none

def enumIn (ms : List (String × Json)) : Option (List Json) :=
  match ms.lookup "enum" with
  | some (.arr vs) => some vs
  | _ => none

/-- Puts a node of a kind together from the entries of a record, and what their values stand for. -/
def assembleAs (ms : List (String × Json)) (rs : List (String × Reading)) (info : Info) : Kind → Option Node
  | .primitive p => some (.primitive info p (enumIn ms))
  | .array => ((rs.lookup "items").bind Reading.node?).map (.array info)
  | .object => do
    let properties ← (rs.lookup "properties").bind Reading.nodes?
    let defs ← (rs.lookup "defs").elim (some []) Reading.table?
    return .object info properties defs
  | .union => ((rs.lookup "members").bind Reading.nodes?).map (fun members => .union info members (enumIn ms))

def kindIn (ms : List (String × Json)) : Option Kind :=
  match ms.lookup "kind" with
  | some (.str s) => Kind.ofText? s
  | _ => none

def assemble (ms : List (String × Json)) (rs : List (String × Reading)) : Option Node :=
  (kindIn ms).bind (assembleAs ms rs (Info.ofEntries ms))

def tableOf (rs : List (String × Reading)) : Option (List (String × Node)) :=
  rs.mapM (fun e => e.2.node?.map (fun n => (e.1, n)))

mutual
def read : Json → Reading
  | .obj ms => { node? := assemble ms (readMembers ms), table? := tableOf (readMembers ms) }
  | .arr vs => { nodes? := (readItems vs).mapM Reading.node? }
  | _ => {}
def readMembers : List (String × Json) → List (String × Reading)
  | [] => []
  | (k, v) :: ms => (k, read v) :: readMembers ms
def readItems : List Json → List Reading
  | [] => []
  | v :: vs => read v :: readItems vs
end

/-- **The node that a record is of.** -/
def ofRecord? (v : Json) : Option Node := (read v).node?

theorem readMembers_eq_map (ms : List (String × Json)) : readMembers ms = ms.map (fun e => (e.1, read e.2)) := by
  induction ms with
  | nil => rfl
  | cons e ms ih => obtain ⟨k, v⟩ := e; rw [readMembers, ih]; rfl

theorem lookup_readMembers (ms : List (String × Json)) (k : String) :
    (readMembers ms).lookup k = (ms.lookup k).map read := by
  rw [readMembers_eq_map, Table.lookup_map]

/-! ## Records and nodes -/

/-- **A node that its record tells apart**: nothing in it is bare, and all names are texts. -/
inductive Recordable : Node → Prop where
  | primitive {i k e} (hi : ∃ s, i.name = .str s) : Recordable (.primitive i k e)
  | array {i n} (hi : ∃ s, i.name = .str s) (hn : Recordable n) : Recordable (.array i n)
  | object {i ps ds} (hi : ∃ s, i.name = .str s) (hps : ∀ p ∈ ps, Recordable p) (hds : ∀ d ∈ ds, Recordable d.2) :
    Recordable (.object i ps ds)
  | union {i ms e} (hi : ∃ s, i.name = .str s) (hms : ∀ m ∈ ms, Recordable m) : Recordable (.union i ms e)

/-- The record of a node is read as that node. -/
def ComesBack (n : Node) : Prop := ∃ j, n.record? = some j ∧ ofRecord? j = some n

theorem enumIn_entryOf {ms : List (String × Json)} {e : Option (List Json)}
    (h : ms.lookup "enum" = (entryOf "enum" (e.map .arr)).lookup "enum") : enumIn ms = e := by
  unfold enumIn
  rw [h]
  cases e <;> rfl

/-- A record is read by its kind, with what every node carries and the entries of the kind found in their places. -/
theorem ofRecord?_recordWith (kind : Kind) {i : Info} {own : List (String × Json)} (hi : ∃ s, i.name = .str s)
    (hown : ∀ e ∈ own, e.1 ∉ Info.keys) :
    ∃ ms, recordWith kind i own = .obj ms ∧ ofRecord? (.obj ms) = assembleAs ms (readMembers ms) i kind ∧
      ∀ k, k ≠ "kind" → k ∉ Info.keys → ms.lookup k = own.lookup k := by
  have hnone : ∀ k ∈ Info.keys, own.lookup k = none := fun k hk =>
    List.lookup_eq_none_iff.2 fun e he => bne_iff_ne.2 fun hke => hown e he (hke ▸ hk)
  refine ⟨_, rfl, ?_, fun k hkind hk => ?_⟩
  · have hfound : kindIn (("kind", .str kind.text) :: (i.entries ++ own)) = some kind := by
      rw [kindIn, List.lookup_cons_self]
      exact kind.ofText?_text
    rw [ofRecord?, read, assemble, hfound, Info.ofEntries_entries i hi hnone]
    rfl
  · rw [List.lookup_cons, beq_false_of_ne hkind]
    exact i.lookup_own hk

theorem recordList?_comesBack {ns : List Node} (h : ∀ n ∈ ns, n.ComesBack) :
    ∃ js, recordList? ns = some js ∧ (read (.arr js)).nodes? = some ns := by
  induction ns with
  | nil => exact ⟨[], rfl, rfl⟩
  | cons n ns ih =>
    obtain ⟨⟨j, hj, hn⟩, hns⟩ := List.forall_mem_cons.1 h
    obtain ⟨js, hjs, hback⟩ := ih hns
    refine ⟨j :: js, by rw [recordList?, hj, hjs]; rfl, ?_⟩
    simp only [read, readItems] at hback ⊢
    rw [List.mapM_cons, hback]
    exact congrArg (·.bind fun n => some (n :: ns)) hn

theorem recordDefs?_comesBack {ds : List (String × Node)} (h : ∀ d ∈ ds, d.2.ComesBack) :
    ∃ es, recordDefs? ds = some es ∧ (read (.obj es)).table? = some ds := by
  induction ds with
  | nil => exact ⟨[], rfl, rfl⟩
  | cons d ds ih =>
    obtain ⟨k, n⟩ := d
    obtain ⟨⟨j, hj, hn⟩, hds⟩ := List.forall_mem_cons.1 h
    obtain ⟨es, hes, hback⟩ := ih hds
    refine ⟨(k, j) :: es, by simp only [recordDefs?] at hj ⊢; rw [hj, hes]; rfl, ?_⟩
    simp only [read, tableOf, readMembers] at hback ⊢
    rw [List.mapM_cons, hback]
    simp only [ofRecord?] at hn
    rw [hn]
    rfl

/-- **A node comes back from its record.** -/
theorem Recordable.comesBack {n : Node} (h : n.Recordable) : n.ComesBack := by
  induction h with
  | @primitive i k e hi =>
    have hown : ∀ x ∈ entryOf "enum" (e.map Json.arr), x.1 ∉ Info.keys := by
      cases e <;> simp [entryOf, Info.keys]
    obtain ⟨ms, hms, hread, hlookup⟩ := ofRecord?_recordWith (.primitive k) hi hown
    refine ⟨.obj ms, by rw [record?, hms], ?_⟩
    rw [hread, assembleAs, enumIn_entryOf (hlookup "enum" (by decide) (by decide))]
  | @array i n hi _ ih =>
    obtain ⟨j, hj, hn⟩ := ih
    have hown : ∀ x ∈ [("items", j)], x.1 ∉ Info.keys := by simp [Info.keys]
    obtain ⟨ms, hms, hread, hlookup⟩ := ofRecord?_recordWith .array hi hown
    refine ⟨.obj ms, by rw [record?, hj, ← hms]; rfl, ?_⟩
    have hitems : (readMembers ms).lookup "items" = some (read j) := by
      rw [lookup_readMembers, hlookup "items" (by decide) (by decide)]
      rfl
    rw [hread, assembleAs, hitems]
    exact congrArg (Option.map (Node.array i)) hn
  | @object i ps ds hi _ _ ihps ihds =>
    obtain ⟨rs, hrs, hps⟩ := recordList?_comesBack ihps
    obtain ⟨es, hes, hds⟩ := recordDefs?_comesBack ihds
    have hown : ∀ x ∈ ("properties", .arr rs) :: entryIf (!es.isEmpty) "defs" (.obj es), x.1 ∉ Info.keys := by
      cases es <;> simp [entryIf, Info.keys]
    obtain ⟨ms, hms, hread, hlookup⟩ := ofRecord?_recordWith .object hi hown
    refine ⟨.obj ms, by rw [record?, hrs, hes, ← hms]; rfl, ?_⟩
    have hproperties : (readMembers ms).lookup "properties" = some (read (.arr rs)) := by
      rw [lookup_readMembers, hlookup "properties" (by decide) (by decide)]
      rfl
    -- no definitions are left out of the record, and are none again
    have hdefs : ((readMembers ms).lookup "defs").elim (some []) Reading.table? = some ds := by
      rw [lookup_readMembers, hlookup "defs" (by decide) (by decide)]
      cases es with
      | nil => exact hds
      | cons e es => exact hds
    rw [hread, assembleAs, hproperties, hdefs]
    exact congrArg (·.bind fun ps => some (Node.object i ps ds)) hps
  | @union i ns e hi _ ih =>
    obtain ⟨rs, hrs, hns⟩ := recordList?_comesBack ih
    have hown : ∀ x ∈ entryOf "enum" (e.map Json.arr) ++ [("members", .arr rs)], x.1 ∉ Info.keys := by
      cases e <;> simp [entryOf, Info.keys]
    obtain ⟨ms, hms, hread, hlookup⟩ := ofRecord?_recordWith .union hi hown
    refine ⟨.obj ms, by rw [record?, hrs, ← hms]; rfl, ?_⟩
    have hmembers : (readMembers ms).lookup "members" = some (read (.arr rs)) := by
      rw [lookup_readMembers, hlookup "members" (by decide) (by decide), lookup_entryOf_of_ne (by decide)]
      rfl
    have henum : enumIn ms = e := by
      refine enumIn_entryOf ((hlookup "enum" (by decide) (by decide)).trans ?_)
      cases e <;> rfl
    rw [hread, assembleAs, hmembers, henum]
    exact congrArg (Option.map fun members => Node.union i members e) hns

/-- **A record loses nothing**: it is read as the node it is of, and no other node has the same one. -/
theorem record_faithful {n : Node} (h : n.Recordable) :
    (∃ j, n.record? = some j ∧ ofRecord? j = some n) ∧ ∀ m : Node, m.Recordable → m.record? = n.record? → m = n := by
  obtain ⟨j, hj, hback⟩ := h.comesBack
  refine ⟨⟨j, hj, hback⟩, fun m hm heq => ?_⟩
  obtain ⟨j', hj', hback'⟩ := hm.comesBack
  rw [heq, hj] at hj'
  cases hj'
  exact Option.some.inj (hback'.symm.trans hback)

/-- An order with an empty text for a description, a list of texts or numbers and an empty enum. -/
def orderNode : Node :=
  .object { description := some (.str ""), keywords := [("minLength", .null)] }
    [.array { name := .str "codes", isRequired := true, refName := some "" }
      (.union {} [.primitive {} .string none, .primitive { isNullable := true } .integer (some [])]
        (some [.int 1, .bool true, .null]))]
    [("Code", .primitive { name := .str "Code", identifierName := some (.str "") } .any none)]

theorem recordable_orderNode : orderNode.Recordable := by
  refine .object ⟨"", rfl⟩ (List.forall_mem_singleton.2 ?_) (List.forall_mem_singleton.2 (.primitive ⟨"Code", rfl⟩))
  refine .array ⟨"codes", rfl⟩ (.union ⟨"", rfl⟩ ?_)
  exact List.forall_mem_cons.2 ⟨.primitive ⟨"", rfl⟩, List.forall_mem_singleton.2 (.primitive ⟨"", rfl⟩)⟩

theorem record_faithful_of_order : orderNode.Recordable ∧
    (∃ j, orderNode.record? = some j ∧ ofRecord? j = some orderNode) ∧
      ∀ m : Node, m.Recordable → m.record? = orderNode.record? → m = orderNode :=
  ⟨recordable_orderNode, record_faithful recordable_orderNode⟩

end Node
end TrackingPlan
