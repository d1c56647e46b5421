import TrackingPlan.Proofs.Json.Equality
import TrackingPlan.Proofs.Node
/-!
# Equality — which nodes are equal, and which have one shape

Nodes are equal when what they carry is equal and they are `Alike` within (`equal_withInfo_iff`); to have one shape they
need not have one name, nor be required alike.  Among proper nodes both are equivalences.  Parts of alike nodes are
equal in the same places (`Alike.part?`), so only of the nodes themselves is the name set aside, not of what lies in
them (`equality_laws`).
-/
namespace TrackingPlan

/-! ## What nodes carry -/

section

variable {α : Type} {eq : α → α → Bool} {o p q : Option α}

theorem equalOption_symm (hR : ∀ a b, o = some a → p = some b → eq a b = true → eq b a = true)
    (h : equalOption eq o p = true) : equalOption eq p o = true := by
  cases o with
  | none =>
    cases p with
    | none => rfl
    | some b => cases h
  | some a =>
    cases p with
    | none => cases h
    | some b => exact hR a b rfl rfl h

theorem equalOption_trans (hR : ∀ a b c, o = some a → eq a b = true → eq b c = true → eq a c = true)
    (h : equalOption eq o p = true) (h' : equalOption eq p q = true) : equalOption eq o q = true := by
  cases o with
  | none =>
    cases p with
    | none => exact h'
    | some b => cases h
  | some a =>
    cases p with
    | none => cases h
    | some b =>
      cases q with
      | none => cases h'
      | some c => exact hR a b c rfl h h'

end

namespace Info

variable {i j k : Info}

theorem equal_iff : i.equal j = true ↔ i.name.equal j.name = true ∧
    equalOption Json.equal i.identifierName j.identifierName = true ∧
    equalOption Json.equal i.description j.description = true ∧ i.isRequired = j.isRequired ∧
    i.isNullable = j.isNullable ∧ i.refName = j.refName ∧ (Json.obj i.keywords).equal (.obj j.keywords) = true := by
  simp only [equal, Bool.and_eq_true, beq_iff_eq, and_assoc]

/-- What a node carries is proper if its keywords are, and all else is text. -/
theorem proper_of_texts (hname : ∃ s, i.name = .str s) (hidentifier : ∀ v, i.identifierName = some v → ∃ s, v = .str s)
    (hdescription : ∀ v, i.description = some v → ∃ s, v = .str s) (hkeywords : (Json.obj i.keywords).Proper) :
    i.Proper := by
  have htext : ∀ v : Json, (∃ s, v = .str s) → v.Proper := by
    rintro v ⟨s, rfl⟩
    exact .str s
  exact ⟨htext _ hname, fun v hv => htext v (hidentifier v hv), fun v hv => htext v (hdescription v hv), hkeywords⟩

theorem equal_symm (hi : i.Proper) (hj : j.Proper) (h : i.equal j = true) : j.equal i = true := by
  obtain ⟨hname, hidentifier, hdescription, hrequired, hnullable, href, hkeywords⟩ := equal_iff.1 h
  refine equal_iff.2 ⟨Json.equal_symm hi.name hj.name hname, ?_, ?_, hrequired.symm, hnullable.symm, href.symm,
    Json.equal_symm hi.keywords hj.keywords hkeywords⟩
  · exact equalOption_symm (fun v w hv hw => Json.equal_symm (hi.identifierName v hv) (hj.identifierName w hw))
      hidentifier
  · exact equalOption_symm (fun v w hv hw => Json.equal_symm (hi.description v hv) (hj.description w hw)) hdescription

theorem equal_trans (hi : i.Proper) (h : i.equal j = true) (h' : j.equal k = true) : i.equal k = true := by
  obtain ⟨hname, hidentifier, hdescription, hrequired, hnullable, href, hkeywords⟩ := equal_iff.1 h
  obtain ⟨hname', hidentifier', hdescription', hrequired', hnullable', href', hkeywords'⟩ := equal_iff.1 h'
  refine equal_iff.2 ⟨Json.equal_trans hi.name hname hname', ?_, ?_, hrequired.trans hrequired',
    hnullable.trans hnullable', href.trans href', Json.equal_trans hi.keywords hkeywords hkeywords'⟩
  · exact equalOption_trans (fun v _ _ hv => Json.equal_trans (hi.identifierName v hv)) hidentifier hidentifier'
  · exact equalOption_trans (fun v _ _ hv => Json.equal_trans (hi.description v hv)) hdescription hdescription'

end Info

namespace Node

variable {n m l : Node} {e f : Option (List Json)}

/-! ## Nodes of each kind -/

theorem equalEnum_symm (he : ProperEnum e) (hf : ProperEnum f) (h : equalOption Json.equalItems e f = true) :
    equalOption Json.equalItems f e = true :=
  equalOption_symm (fun vs ws hvs hws h => Json.equalItems_iff.2 (forall₂_symm_of_mem (hf ws hws)
    (fun v hv _ hw => Json.equal_symm (he vs hvs v hv) hw) (Json.equalItems_iff.1 h))) h

theorem equalEnum_trans {g : Option (List Json)} (he : ProperEnum e) (h : equalOption Json.equalItems e f = true)
    (h' : equalOption Json.equalItems f g = true) : equalOption Json.equalItems e g = true :=
  equalOption_trans (fun vs _ _ hvs h h' => Json.equalItems_iff.2 (forall₂_trans_of_mem
    (fun v hv _ _ => Json.equal_trans (he vs hvs v hv)) (Json.equalItems_iff.1 h) (Json.equalItems_iff.1 h'))) h h'

theorem equalList_iff {ns ms : List Node} :
    equalList ns ms = true ↔ List.Forall₂ (fun n m => n.equal m = true) ns ms := by
  induction ns generalizing ms with
  | nil => cases ms <;> simp [equalList]
  | cons n ns ih => cases ms <;> simp [equalList, ih]

theorem equalDefs_iff {ds es : List (String × Node)} :
    equalDefs ds es = true ↔ Table.Within (fun n m => n.equal m = true) ds es := by
  induction ds with
  | nil => simp [equalDefs, Table.Within]
  | cons d ds ih =>
    obtain ⟨k, n⟩ := d
    rw [equalDefs, Bool.and_eq_true, ih, Table.within_cons_iff]
    cases es.lookup k <;> simp

theorem equal_bare_iff {i : Info} : (Node.bare i).equal m = true ↔ ∃ j, m = .bare j ∧ i.equal j = true := by
  cases m <;> simp [equal]

theorem equal_primitive_iff {i : Info} {k : Primitive} : (Node.primitive i k e).equal m = true ↔
    ∃ j f, m = .primitive j k f ∧ i.equal j = true ∧ equalOption Json.equalItems e f = true := by
  cases m with
  | primitive j l f =>
    simp only [equal, Bool.and_eq_true, beq_iff_eq, primitive.injEq]
    constructor
    · rintro ⟨⟨hij, rfl⟩, hef⟩
      exact ⟨j, f, ⟨rfl, rfl, rfl⟩, hij, hef⟩
    · rintro ⟨j, f, ⟨rfl, rfl, rfl⟩, hij, hef⟩
      exact ⟨⟨hij, rfl⟩, hef⟩
  | _ => simp [equal]

theorem equal_array_iff {i : Info} : (Node.array i n).equal m = true ↔
    ∃ j l, m = .array j l ∧ i.equal j = true ∧ n.equal l = true := by
  cases m <;> simp [equal]

theorem equal_object_iff {i : Info} {ps : List Node} {ds : List (String × Node)} :
    (Node.object i ps ds).equal m = true ↔ ∃ j qs es, m = .object j qs es ∧ i.equal j = true ∧
      List.Forall₂ (fun n m => n.equal m = true) ps qs ∧ ds.length = es.length ∧
      Table.Within (fun n m => n.equal m = true) ds es := by
  cases m <;> simp [equal, equalList_iff, equalDefs_iff, and_assoc]

theorem equal_union_iff {i : Info} {ns : List Node} : (Node.union i ns e).equal m = true ↔
    ∃ j ms f, m = .union j ms f ∧ i.equal j = true ∧ List.Forall₂ (fun n m => n.equal m = true) ns ms ∧
      equalOption Json.equalItems e f = true := by
  cases m <;> simp [equal, equalList_iff, and_assoc]

/-- **Among proper nodes it does not matter which comes first.** -/
theorem equal_symm (hn : n.Proper) (hm : m.Proper) (h : n.equal m = true) : m.equal n = true := by
  induction hn generalizing m with
  | bare hi =>
    obtain ⟨j, rfl, hij⟩ := equal_bare_iff.1 h
    cases hm with
    | bare hj => exact equal_bare_iff.2 ⟨_, rfl, Info.equal_symm hi hj hij⟩
  | primitive hi he =>
    obtain ⟨j, f, rfl, hij, hef⟩ := equal_primitive_iff.1 h
    cases hm with
    | primitive hj hf => exact equal_primitive_iff.2 ⟨_, _, rfl, Info.equal_symm hi hj hij, equalEnum_symm he hf hef⟩
  | array hi _ ih =>
    obtain ⟨j, l, rfl, hij, hnl⟩ := equal_array_iff.1 h
    cases hm with
    | array hj hl => exact equal_array_iff.2 ⟨_, _, rfl, Info.equal_symm hi hj hij, ih hl hnl⟩
  | object hi _ hkeys _ ihps ihds =>
    obtain ⟨j, qs, es, rfl, hij, hpq, hlen, hde⟩ := equal_object_iff.1 h
    cases hm with
    | object hj hqs hkeys' hes =>
      exact equal_object_iff.2 ⟨_, _, _, rfl, Info.equal_symm hi hj hij,
        forall₂_symm_of_mem hqs (fun p hp q hq => ihps p hp hq) hpq, hlen.symm,
        hde.symm hkeys hkeys' hlen hes fun d hd e he => ihds d hd he⟩
  | union hi _ he ih =>
    obtain ⟨j, ms, f, rfl, hij, hnm, hef⟩ := equal_union_iff.1 h
    cases hm with
    | union hj hms hf =>
      exact equal_union_iff.2 ⟨_, _, _, rfl, Info.equal_symm hi hj hij,
        forall₂_symm_of_mem hms (fun n hn m hm => ih n hn hm) hnm, equalEnum_symm he hf hef⟩

/-- **What equals an equal node is equal.** -/
theorem equal_trans (hn : n.Proper) (h : n.equal m = true) (h' : m.equal l = true) : n.equal l = true := by
  induction hn generalizing m l with
  | bare hi =>
    obtain ⟨j, rfl, hij⟩ := equal_bare_iff.1 h
    obtain ⟨k, rfl, hjk⟩ := equal_bare_iff.1 h'
    exact equal_bare_iff.2 ⟨k, rfl, Info.equal_trans hi hij hjk⟩
  | primitive hi he =>
    obtain ⟨j, f, rfl, hij, hef⟩ := equal_primitive_iff.1 h
    obtain ⟨k, g, rfl, hjk, hfg⟩ := equal_primitive_iff.1 h'
    exact equal_primitive_iff.2 ⟨k, g, rfl, Info.equal_trans hi hij hjk, equalEnum_trans he hef hfg⟩
  | array hi _ ih =>
    obtain ⟨j, m, rfl, hij, hnm⟩ := equal_array_iff.1 h
    obtain ⟨k, l, rfl, hjk, hml⟩ := equal_array_iff.1 h'
    exact equal_array_iff.2 ⟨k, l, rfl, Info.equal_trans hi hij hjk, ih hnm hml⟩
  | object hi _ _ _ ihps ihds =>
    obtain ⟨j, qs, es, rfl, hij, hpq, hlen, hde⟩ := equal_object_iff.1 h
    obtain ⟨k, rs, fs, rfl, hjk, hqr, hlen', hef⟩ := equal_object_iff.1 h'
    exact equal_object_iff.2 ⟨k, rs, fs, rfl, Info.equal_trans hi hij hjk,
      forall₂_trans_of_mem (fun p hp q r => ihps p hp) hpq hqr, hlen.trans hlen',
      hde.trans hef fun d hd e f => ihds d hd⟩
  | union hi _ he ih =>
    obtain ⟨j, ms, f, rfl, hij, hnm, hef⟩ := equal_union_iff.1 h
    obtain ⟨k, ls, g, rfl, hjk, hml, hfg⟩ := equal_union_iff.1 h'
    exact equal_union_iff.2 ⟨k, ls, g, rfl, Info.equal_trans hi hij hjk,
      forall₂_trans_of_mem (fun n hn m l => ih n hn) hnm hml, equalEnum_trans he hef hfg⟩

/-! ## Nodes but for what they carry -/

/-- **Nodes that are equal but for what they carry themselves.** -/
def Alike (n m : Node) : Prop := (n.withInfo fun _ => {}).equal (m.withInfo fun _ => {}) = true

theorem equal_iff_alike : n.equal m = true ↔ n.info.equal m.info = true ∧ Alike n m := by
  have hblank : ({} : Info).equal {} = true := by decide
  unfold Alike
  cases n <;> cases m <;> simp [withInfo, equal, info, hblank, and_assoc]

theorem alike_withInfo_left {f : Info → Info} : Alike (n.withInfo f) m ↔ Alike n m := by
  cases n <;> exact Iff.rfl

theorem alike_withInfo_right {f : Info → Info} : Alike n (m.withInfo f) ↔ Alike n m := by
  cases m <;> exact Iff.rfl

theorem sameShape_iff_alike : n.sameShape m = true ↔ n.info.unplaced.equal m.info.unplaced = true ∧ Alike n m := by
  rw [sameShape, equal_iff_alike, info_withInfo, info_withInfo, alike_withInfo_left, alike_withInfo_right]

/-- The node as it would stand in the other's place: under its name, and required if it is. -/
def placedAs (n m : Node) : Node :=
  n.withInfo fun i => { i with name := m.info.name, isRequired := m.info.isRequired }

theorem Proper.info {n : Node} (h : n.Proper) : n.info.Proper := by
  cases h <;> assumption

/-- **Nodes have one shape when they are equal in one place.** -/
theorem sameShape_iff_placedAs (hm : m.Proper) : n.sameShape m = true ↔ (n.placedAs m).equal m = true := by
  have hname := Json.equal_self hm.info.name
  have hblank := Json.equal_self (.str "")
  rw [sameShape_iff_alike, placedAs, equal_iff_alike, info_withInfo, alike_withInfo_left]
  simp only [Info.equal_iff, Info.unplaced, hname, hblank, true_and]

theorem sameShape_of_equal (h : n.equal m = true) : n.sameShape m = true := by
  obtain ⟨hinfo, halike⟩ := equal_iff_alike.1 h
  obtain ⟨-, hidentifier, hdescription, -, hrest⟩ := Info.equal_iff.1 hinfo
  exact sameShape_iff_alike.2
    ⟨Info.equal_iff.2 ⟨Json.equal_self (.str ""), hidentifier, hdescription, rfl, hrest⟩, halike⟩

theorem Proper.unplaced {n : Node} (h : n.Proper) : (n.withInfo Info.unplaced).Proper := h.withInfo h.info.unplaced

/-! ## What lies in a node -/

/-- A step from a node to one that lies directly in it. -/
inductive Step where
  | items
  | property (index : Nat)
  | definition (id : String)
  | member (index : Nat)

def part? : Node → Step → Option Node
  | .array _ n, .items => some n
  | .object _ ps _, .property index => ps[index]?
  | .object _ _ ds, .definition id => ds.lookup id
  | .union _ ms _, .member index => ms[index]?
  | _, _ => none

/-- The node that some steps lead to. -/
def descendant? (n : Node) : List Step → Option Node
  | [] => some n
  | s :: path => (n.part? s).bind (·.descendant? path)

variable {x y : Node} {s : Step} {path : List Step}

theorem Proper.child {c : Node} (h : n.Proper) (hc : Child n c) : c.Proper := by
  cases h with
  | bare => cases hc
  | primitive => cases hc
  | array _ hn => cases hc; exact hn
  | object _ hps _ hds =>
    cases hc with
    | property hp => exact hps _ hp
    | definition hd => exact hds _ hd
  | union _ hms _ => cases hc with | member hm => exact hms _ hm

theorem exists_part?_of_child (h : n.Proper) (hc : Child n x) : ∃ s, n.part? s = some x := by
  cases hc with
  | items => exact ⟨.items, rfl⟩
  | property hp =>
    obtain ⟨index, hindex⟩ := List.mem_iff_getElem?.1 hp
    exact ⟨.property index, hindex⟩
  | definition hd => cases h with | object _ _ hkeys _ => exact ⟨.definition _, Table.lookup_of_mem hkeys hd⟩
  | member hm =>
    obtain ⟨index, hindex⟩ := List.mem_iff_getElem?.1 hm
    exact ⟨.member index, hindex⟩

/-- **Steps lead to all that lies in a proper node.** -/
theorem exists_descendant? (h : n.Proper) (hx : Relation.TransGen Child n x) :
    ∃ s path, n.descendant? (s :: path) = some x := by
  induction hx using Relation.TransGen.head_induction_on with
  | single hc =>
    obtain ⟨s, hs⟩ := exists_part?_of_child h hc
    exact ⟨s, [], by rw [descendant?, hs]; rfl⟩
  | head hc _ ih =>
    obtain ⟨s, hs⟩ := exists_part?_of_child h hc
    obtain ⟨t, path, hpath⟩ := ih (h.child hc)
    exact ⟨s, t :: path, by rw [descendant?, hs]; exact hpath⟩

theorem getElem?_of_forall₂ {ns ms : List Node} (h : List.Forall₂ (fun n m => n.equal m = true) ns ms) {index : Nat}
    (hx : ns[index]? = some x) : ∃ y, ms[index]? = some y ∧ x.equal y = true := by
  induction h generalizing index with
  | nil => cases hx
  | @cons n m ns ms hnm _ ih =>
    cases index with
    | zero =>
      rw [List.getElem?_cons_zero, Option.some.injEq] at hx
      exact ⟨m, rfl, hx ▸ hnm⟩
    | succ index => exact ih hx

/-- **Parts of alike nodes are equal in the same places.** -/
theorem Alike.part? (h : Alike n m) (hx : n.part? s = some x) : ∃ y, m.part? s = some y ∧ x.equal y = true := by
  cases n with
  | bare => cases s <;> cases hx
  | primitive => cases s <;> cases hx
  | array i n =>
    obtain ⟨j, l, hm, -, hnl⟩ := equal_array_iff.1 h
    cases m <;> cases hm
    cases s <;> cases hx
    exact ⟨_, rfl, hnl⟩
  | object i ps ds =>
    obtain ⟨j, qs, es, hm, -, hpq, -, hde⟩ := equal_object_iff.1 h
    cases m <;> cases hm
    cases s with
    | property index => exact getElem?_of_forall₂ hpq hx
    | definition id => exact hde _ (Table.mem_of_lookup hx)
    | _ => cases hx
  | union i ns e =>
    obtain ⟨j, ms, f, hm, -, hnm, -⟩ := equal_union_iff.1 h
    cases m <;> cases hm
    cases s with
    | member index => exact getElem?_of_forall₂ hnm hx
    | _ => cases hx

/-- **What lies in alike nodes is equal in the same places**, with its name and all. -/
theorem Alike.descendant? (h : Alike n m) (hx : n.descendant? (s :: path) = some x) :
    ∃ y, m.descendant? (s :: path) = some y ∧ x.equal y = true := by
  induction path generalizing n m s with
  | nil =>
    obtain ⟨l, hl, hlx⟩ := Option.bind_eq_some_iff.1 hx
    obtain ⟨k, hk, hlk⟩ := h.part? hl
    cases hlx
    exact ⟨k, Option.bind_eq_some_iff.2 ⟨k, hk, rfl⟩, hlk⟩
  | cons t path ih =>
    obtain ⟨l, hl, hlx⟩ := Option.bind_eq_some_iff.1 hx
    obtain ⟨k, hk, hlk⟩ := h.part? hl
    obtain ⟨y, hy, hxy⟩ := ih (equal_iff_alike.1 hlk).2 hlx
    exact ⟨y, Option.bind_eq_some_iff.2 ⟨k, hk, hy⟩, hxy⟩

/-- **A name or required flag that differs within tells nodes apart.** -/
theorem sameShape_eq_false (hx : n.descendant? (s :: path) = some x) (hy : m.descendant? (s :: path) = some y)
    (h : x.info.name.equal y.info.name = false ∨ x.info.isRequired ≠ y.info.isRequired) : n.sameShape m = false := by
  refine Bool.eq_false_iff.2 fun hsame => ?_
  obtain ⟨z, hz, hxz⟩ := (sameShape_iff_alike.1 hsame).2.descendant? hx
  rw [hy, Option.some.injEq] at hz
  subst hz
  obtain ⟨hname, -, -, hrequired, -⟩ := Info.equal_iff.1 (equal_iff_alike.1 hxz).1
  rcases h with h | h
  · rw [hname] at h
    cases h
  · exact h hrequired

/-! ## Equivalences -/

def ProperNode : Type := { n : Node // n.Proper }

theorem equivalence_equal : Equivalence fun n m : ProperNode => n.1.equal m.1 = true where
  refl n := equal_self n.2
  symm {n m} h := equal_symm n.2 m.2 h
  trans {n _ _} h h' := equal_trans n.2 h h'

theorem equivalence_sameShape : Equivalence fun n m : ProperNode => n.1.sameShape m.1 = true where
  refl n := sameShape_self n.2
  symm {n m} h := equal_symm n.2.unplaced m.2.unplaced h
  trans {n _ _} h h' := equal_trans n.2.unplaced h h'

/-- **Being equal and having one shape are equivalences** among proper nodes: all numbers in them are numbers, and no
table has a key twice.  Names and descriptions that are texts are proper (`Info.proper_of_texts`), so this is about the
values of enums and keywords.  Equal nodes have one shape, and nodes have one shape when they are equal in one place;
yet a name, or being required, that differs anywhere within them tells them apart. -/
theorem equality_laws :
    (Equivalence fun n m : ProperNode => n.1.equal m.1 = true) ∧
    (Equivalence fun n m : ProperNode => n.1.sameShape m.1 = true) ∧
    ∀ n m : ProperNode, (n.1.equal m.1 = true → n.1.sameShape m.1 = true) ∧
      (n.1.sameShape m.1 = true ↔ (n.1.placedAs m.1).equal m.1 = true) ∧
      (∀ x, Relation.TransGen Child n.1 x → ∃ s path, n.1.descendant? (s :: path) = some x) ∧
      ∀ s path x y, n.1.descendant? (s :: path) = some x → m.1.descendant? (s :: path) = some y →
        (x.info.name.equal y.info.name = false ∨ x.info.isRequired ≠ y.info.isRequired) →
        n.1.equal m.1 = false ∧ n.1.sameShape m.1 = false := by
  refine ⟨equivalence_equal, equivalence_sameShape, fun n m => ⟨sameShape_of_equal, sameShape_iff_placedAs m.2,
    fun x => exists_descendant? n.2, fun s path x y hx hy h => ?_⟩⟩
  have hshape := sameShape_eq_false hx hy h
  exact ⟨Bool.eq_false_iff.2 fun heq => Bool.eq_false_iff.1 hshape (sameShape_of_equal heq), hshape⟩

/-- An object under a name, with one property: a number, its keywords and its enum. -/
def oneNumber (name property : String) (keywords : List (String × Json)) (enum : List Json) : Node :=
  .object { name := .str name } [.primitive { name := .str property, keywords } .number (some enum)] []

theorem proper_oneNumber (name property : String) {keywords : List (String × Json)} {enum : List Json}
    (hkeywords : (Json.obj keywords).Proper) (henum : ∀ v ∈ enum, v.Proper) :
    (oneNumber name property keywords enum).Proper := by
  have hinfo : ∀ (s : String) (kws : List (String × Json)), (Json.obj kws).Proper →
      Info.Proper { name := .str s, keywords := kws } := fun s kws hkws =>
    Info.proper_of_texts ⟨s, rfl⟩ (fun _ h => by cases h) (fun _ h => by cases h) hkws
  refine .object (hinfo name [] (.obj List.nodup_nil fun _ h => absurd h List.not_mem_nil)) ?_ List.nodup_nil
    fun _ h => absurd h List.not_mem_nil
  refine List.forall_mem_singleton.2 (.primitive (hinfo property keywords hkeywords) fun vs hvs => ?_)
  cases hvs
  exact henum

/-- One, as a number with a point. -/
def pointedOne : Double := .ofRatio false 1 1

/-- Nodes under two names, their keywords in two orders and their values of three types. -/
theorem equality_laws_of_mixed :
    let n := oneNumber "a" "x" [("minimum", .int 1), ("format", .str "id")] [.bool true, .int 0]
    let m := oneNumber "b" "x" [("format", .str "id"), ("minimum", .float pointedOne)] [.int 1, .bool false]
    let l := oneNumber "b" "y" [("format", .str "id"), ("minimum", .float pointedOne)] [.int 1, .bool false]
    n.Proper ∧ m.Proper ∧ l.Proper ∧ n.equal m = false ∧ n.sameShape m = true ∧ m.sameShape n = true ∧
      (n.placedAs m).equal m = true ∧ m.equal l = false ∧ m.sameShape l = false := by
  intro n m l
  have hn : n.Proper := by
    refine proper_oneNumber _ _ (.obj (by decide) fun e he => ?_) fun v hv => ?_
    · rcases List.mem_pair.1 he with rfl | rfl <;> constructor
    · rcases List.mem_pair.1 hv with rfl | rfl <;> constructor
  have hm : ∀ property, (oneNumber "b" property [("format", .str "id"), ("minimum", .float pointedOne)]
      [.int 1, .bool false]).Proper := fun property => by
    refine proper_oneNumber _ _ (.obj (by decide) fun e he => ?_) fun v hv => ?_
    · rcases List.mem_pair.1 he with rfl | rfl
      · exact .str "id"
      · exact .float (by decide +kernel)
    · rcases List.mem_pair.1 hv with rfl | rfl <;> constructor
  have hshape : n.sameShape m = true := by decide +kernel
  obtain ⟨-, hequivalence, hpairs⟩ := equality_laws
  obtain ⟨-, hplaced, -⟩ := hpairs ⟨n, hn⟩ ⟨m, hm "x"⟩
  obtain ⟨-, -, -, hwithin⟩ := hpairs ⟨m, hm "x"⟩ ⟨l, hm "y"⟩
  obtain ⟨hequal, hapart⟩ := hwithin (.property 0) [] _ _ rfl rfl (.inl (by decide))
  have hback : m.sameShape n = true := @hequivalence.symm ⟨n, hn⟩ ⟨m, hm "x"⟩ hshape
  exact ⟨hn, hm "x", hm "y", by decide +kernel, hshape, hback, hplaced.1 hshape, hequal, hapart⟩

end Node
end TrackingPlan
