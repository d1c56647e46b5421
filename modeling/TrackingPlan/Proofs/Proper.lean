import TrackingPlan.Schema.Equality
import TrackingPlan.Schema.Keywords
import TrackingPlan.Table
/-!
# Proper — what equals itself

A number that is none does not equal itself, and an object with a key twice hides a value.  Values and nodes without
these are `Proper`, and equal themselves (`Json.equal_self`, `Node.equal_self`).  What is read off the keywords of a
proper schema is proper.
-/
namespace TrackingPlan

/-! ## Values -/

namespace Json

/-- **Numbers are numbers, and the keys of objects different**, in the whole value. -/
inductive Proper : Json → Prop where
  | null : Proper .null
  | bool (b : Bool) : Proper (.bool b)
  | int (n : Int) : Proper (.int n)
  | float {x} (h : x.isNaN = false) : Proper (.float x)
  | str (s : String) : Proper (.str s)
  | arr {vs} (h : ∀ v ∈ vs, Proper v) : Proper (.arr vs)
  | obj {ms} (hkeys : (ms.map Prod.fst).Nodup) (h : ∀ e ∈ ms, Proper e.2) : Proper (.obj ms)

theorem equalItems_self {vs : List Json} (h : ∀ v ∈ vs, v.equal v = true) : equalItems vs vs = true := by
  induction vs with
  | nil => rfl
  | cons v vs ih =>
    rw [List.forall_mem_cons] at h
    rw [equalItems, h.1, ih h.2]
    rfl

theorem equalMembers_of_lookup {ms ns : List (String × Json)}
    (h : ∀ e ∈ ms, ns.lookup e.1 = some e.2 ∧ e.2.equal e.2 = true) : equalMembers ms ns = true := by
  induction ms with
  | nil => rfl
  | cons e ms ih =>
    obtain ⟨k, v⟩ := e
    rw [List.forall_mem_cons] at h
    obtain ⟨⟨hlookup, hequal⟩, hrest⟩ := h
    simp only [equalMembers, hlookup, hequal, ih hrest, Bool.and_self]

/-- **A proper value equals itself.** -/
theorem equal_self {v : Json} (h : v.Proper) : v.equal v = true := by
  induction h with
  | null => rfl
  | bool b => exact beq_self_eq_true _
  | int n => exact beq_self_eq_true _
  | @float x h =>
    show equalNumbers (.float x) (.float x) = true
    obtain ⟨q, hq⟩ : ∃ q, (Json.float x).number? = some q := by
      simp only [number?, h]
      cases x.value? with
      | some q => exact ⟨.finite q, rfl⟩
      | none => exact ⟨.infinite x.negative, rfl⟩
    rw [equalNumbers, hq]
    exact beq_self_eq_true q
  | str s => exact beq_self_eq_true s
  | arr _ ih => exact equalItems_self ih
  | @obj ms hkeys _ ih =>
    have hmembers : equalMembers ms ms = true :=
      equalMembers_of_lookup fun e he => ⟨Table.lookup_of_mem hkeys he, ih e he⟩
    rw [equal, beq_self_eq_true, hmembers]
    rfl

theorem Proper.of_lookup {ms : List (String × Json)} (h : (Json.obj ms).Proper) {key : String} {v : Json}
    (hv : ms.lookup key = some v) : v.Proper := by
  cases h with
  | obj _ h => exact h _ (Table.mem_of_lookup hv)

theorem Proper.of_mem {vs : List Json} (h : (Json.arr vs).Proper) {v : Json} (hv : v ∈ vs) : v.Proper := by
  cases h with
  | arr h => exact h v hv

theorem proper_firstGiven {vs : List Json} (h : ∀ v ∈ vs, v.Proper) : (firstGiven vs).Proper := by
  induction vs with
  | nil => exact .str ""
  | cons v vs ih =>
    rw [List.forall_mem_cons] at h
    rw [firstGiven]
    split
    · exact h.1
    · exact ih h.2

theorem Proper.given? {o : Option Json} (h : ∀ v, o = some v → v.Proper) {v : Json} (hv : Json.given? o = some v) :
    v.Proper :=
  h v (Option.filter_eq_some_iff.1 hv).1

end Json

/-! ## Nodes -/

/-- What a node carries is proper. -/
structure Info.Proper (i : Info) : Prop where
  name : i.name.Proper
  identifierName : ∀ v, i.identifierName = some v → v.Proper
  description : ∀ v, i.description = some v → v.Proper
  keywords : (Json.obj i.keywords).Proper

theorem equalOption_self {α : Type} {eq : α → α → Bool} {o : Option α} (h : ∀ a, o = some a → eq a a = true) :
    equalOption eq o o = true := by
  cases o with
  | none => rfl
  | some a => exact h a rfl

theorem Info.equal_self {i : Info} (h : i.Proper) : i.equal i = true := by
  have htitle : equalOption Json.equal i.identifierName i.identifierName = true :=
    equalOption_self fun v hv => Json.equal_self (h.identifierName v hv)
  have hdescription : equalOption Json.equal i.description i.description = true :=
    equalOption_self fun v hv => Json.equal_self (h.description v hv)
  simp only [Info.equal, Json.equal_self h.name, htitle, hdescription, Json.equal_self h.keywords, beq_self_eq_true,
    Bool.and_self]

theorem Info.Proper.unplaced {i : Info} (h : i.Proper) : i.unplaced.Proper :=
  ⟨.str "", h.identifierName, h.description, h.keywords⟩

namespace Node

/-- The values of an enum are proper. -/
def ProperEnum (e : Option (List Json)) : Prop := ∀ vs, e = some vs → ∀ v ∈ vs, v.Proper

/-- **All values in the node are proper**, and the names of its definitions different. -/
inductive Proper : Node → Prop where
  | bare {i} (hi : i.Proper) : Proper (.bare i)
  | primitive {i k e} (hi : i.Proper) (he : ProperEnum e) : Proper (.primitive i k e)
  | array {i n} (hi : i.Proper) (hn : Proper n) : Proper (.array i n)
  | object {i ps ds} (hi : i.Proper) (hps : ∀ p ∈ ps, Proper p) (hkeys : (ds.map Prod.fst).Nodup)
    (hds : ∀ d ∈ ds, Proper d.2) : Proper (.object i ps ds)
  | union {i ms e} (hi : i.Proper) (hms : ∀ m ∈ ms, Proper m) (he : ProperEnum e) : Proper (.union i ms e)

theorem equalList_self {ns : List Node} (h : ∀ n ∈ ns, n.equal n = true) : equalList ns ns = true := by
  induction ns with
  | nil => rfl
  | cons n ns ih =>
    rw [List.forall_mem_cons] at h
    rw [equalList, h.1, ih h.2]
    rfl

theorem equalDefs_of_lookup {ds es : List (String × Node)}
    (h : ∀ d ∈ ds, es.lookup d.1 = some d.2 ∧ d.2.equal d.2 = true) : equalDefs ds es = true := by
  induction ds with
  | nil => rfl
  | cons d ds ih =>
    obtain ⟨k, n⟩ := d
    rw [List.forall_mem_cons] at h
    obtain ⟨⟨hlookup, hequal⟩, hrest⟩ := h
    simp only [equalDefs, hlookup, hequal, ih hrest, Bool.and_self]

theorem equalEnum_self {e : Option (List Json)} (h : ProperEnum e) : equalOption Json.equalItems e e = true :=
  equalOption_self fun vs hvs => Json.equalItems_self fun v hv => Json.equal_self (h vs hvs v hv)

/-- **A proper node equals itself.** -/
theorem equal_self {n : Node} (h : n.Proper) : n.equal n = true := by
  induction h with
  | bare hi => exact Info.equal_self hi
  | primitive hi he => simp only [equal, Info.equal_self hi, beq_self_eq_true, equalEnum_self he, Bool.and_self]
  | array hi _ ih => simp only [equal, Info.equal_self hi, ih, Bool.and_self]
  | @object i ps ds hi _ hkeys _ ihps ihds =>
    have hdefs : equalDefs ds ds = true :=
      equalDefs_of_lookup fun d hd => ⟨Table.lookup_of_mem hkeys hd, ihds d hd⟩
    simp only [equal, Info.equal_self hi, equalList_self ihps, beq_self_eq_true, hdefs, Bool.and_self]
  | union hi _ he ih => simp only [equal, Info.equal_self hi, equalList_self ih, equalEnum_self he, Bool.and_self]

theorem Proper.withInfo {n : Node} (h : n.Proper) {f : Info → Info} (hf : (f n.info).Proper) :
    (n.withInfo f).Proper := by
  cases h with
  | bare => exact .bare hf
  | primitive _ he => exact .primitive hf he
  | array _ hn => exact .array hf hn
  | object _ hps hkeys hds => exact .object hf hps hkeys hds
  | union _ hms he => exact .union hf hms he

/-- **A proper node has the shape of itself.** -/
theorem sameShape_self {n : Node} (h : n.Proper) : n.sameShape n = true := by
  have hinfo : n.info.Proper := by cases h <;> assumption
  exact equal_self (h.withInfo hinfo.unplaced)

end Node

/-! ## Keywords -/

namespace Keywords

variable {ms : Members} (h : (Json.obj ms).Proper)

theorem mem_of_distinctFrom {v : Json} : ∀ {seen vs : List Json}, v ∈ distinctFrom seen vs → v ∈ vs
  | _, [], hv => hv
  | seen, w :: ws, hv => by
    rw [distinctFrom] at hv
    split at hv
    · exact List.mem_cons_of_mem w (mem_of_distinctFrom hv)
    · rcases List.mem_cons.1 hv with rfl | hv
      · exact List.mem_cons_self
      · exact List.mem_cons_of_mem w (mem_of_distinctFrom hv)

/-- The keywords kept as they stand are under different keys. -/
theorem nodup_copied (ms : Members) : ((copied ms).map Prod.fst).Nodup := by
  have hsublist : ∀ keys : List String,
      ((keys.filterMap (fun k => (ms.lookup k).map (fun v => (k, v)))).map Prod.fst).Sublist keys := by
    intro keys
    induction keys with
    | nil => exact .slnil
    | cons k keys ih =>
      rw [List.filterMap_cons]
      cases ms.lookup k with
      | none => exact ih.cons k
      | some v => exact ih.cons_cons k
  exact List.Nodup.sublist (hsublist advanced) (by decide)

include h

theorem proper_rawEnum {vs : List Json} (hvs : rawEnum ms = some vs) : ∀ v ∈ vs, v.Proper := by
  unfold rawEnum at hvs
  split at hvs
  · next ws hws => cases hvs; exact fun v hv => (h.of_lookup hws).of_mem hv
  · next w hw =>
    cases hvs
    rintro v hv
    rw [List.mem_singleton.1 hv]
    exact h.of_lookup hw
  · obtain ⟨w, hw, rfl⟩ := Option.map_eq_some_iff.1 hvs
    rintro v hv
    rw [List.mem_singleton.1 hv]
    exact h.of_lookup hw

theorem proper_enum? : Node.ProperEnum (enum? ms) := by
  intro vs hvs v hv
  unfold enum? at hvs
  split at hvs
  · next ws hws =>
    split at hvs
    · cases hvs
    · cases hvs
      exact proper_rawEnum h hws v (List.mem_filter.1 (mem_of_distinctFrom hv)).1
  · cases hvs

theorem proper_copied : (Json.obj (copied ms)).Proper := by
  refine .obj (nodup_copied ms) fun e he => ?_
  obtain ⟨k, -, hk⟩ := List.mem_filterMap.1 he
  obtain ⟨v, hv, rfl⟩ := Option.map_eq_some_iff.1 hk
  exact h.of_lookup hv

/-- **What a proper schema writes onto a node is proper**, if the name is. -/
theorem proper_describe {n : Node} (hn : n.Proper) (hblank : ∃ ref, n.info = { refName := ref }) (ts : List RawType)
    {name : Json} (hname : name.Proper) (isRequired : Bool) : (describe ms ts name isRequired n).Proper := by
  obtain ⟨ref, hinfo⟩ := hblank
  have htitle : ∀ v, Json.given? (ms.lookup "title") = some v → v.Proper := fun v => .given? fun _ => h.of_lookup
  have hdescription : ∀ v, Json.given? (ms.lookup "description") = some v → v.Proper :=
    fun v => .given? fun _ => h.of_lookup
  have horElse : ∀ o : Option Json, (o <|> none) = o := fun o => by cases o <;> rfl
  refine hn.withInfo ⟨Json.proper_firstGiven ?_, ?_, ?_, proper_copied h⟩
  · rw [List.forall_mem_cons, List.forall_mem_singleton]
    refine ⟨hname, ?_⟩
    cases ht : Json.given? (ms.lookup "title") with
    | none => exact .null
    | some v => exact htitle v ht
  · rw [hinfo]
    exact fun v hv => htitle v ((horElse _).symm.trans hv)
  · rw [hinfo]
    exact fun v hv => hdescription v ((horElse _).symm.trans hv)

end Keywords
end TrackingPlan
