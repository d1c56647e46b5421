import Mathlib.Data.List.Forall2
import TrackingPlan.Proofs.Node
import TrackingPlan.Proofs.Parser.Site
import TrackingPlan.Proofs.Parsing
/-!
# Source — which value a node stands for

A node in the result of a parse stands for one value of the document: a property for the value under its key, an item
for what the items are, a member of a union for the schema of the union.  `Sourced` is a node with that value, and from
it `Child` goes on to those directly inside.  When, at every pair that is reached so, an object has for properties the
nodes that the values under its keys are parsed to, in order, and nothing in the node is left out, the node is
`Faithful`.
-/
namespace TrackingPlan

namespace Parser

open Keywords (Members)

/-! ## Nodes with their sources -/

/-- The members of a keyword that are schemas; a truth value says nothing. -/
def schemasIn (ms : Members) (key : String) : Members := (membersIn ms key).filter (fun e => !e.2.isBool)

/-- **A node and the value that it is parsed from**; at the root the definitions are custom types. -/
structure Sourced where
  node : Node
  raw : Json
  atRoot : Bool

namespace Sourced

/-- **A node directly inside, with its source**; `declares` has the definitions at the root under their keys. -/
inductive Child (declares : String → Json → Prop) : Sourced → Sourced → Prop where
  | property {i ps ds is c k v p} (h : ((k, v), p) ∈ (schemasIn is "properties").zip ps) :
    Child declares ⟨.object i ps ds, .obj is, c⟩ ⟨p, v, false⟩
  | definition {i ps ds is e d} (h : (e, d) ∈ (schemasIn is "$defs").zip ds) :
    Child declares ⟨.object i ps ds, .obj is, false⟩ ⟨d.2, e.2, false⟩
  | customType {i ps ds is k d v} (h : (k, d) ∈ ds) (hv : declares k v) :
    Child declares ⟨.object i ps ds, .obj is, true⟩ ⟨d, v, false⟩
  | items {i n is c js} (h : is.lookup "items" = some (.obj js)) :
    Child declares ⟨.array i n, .obj is, c⟩ ⟨n, .obj js, false⟩
  | item {i n is c vs v} (h : is.lookup "items" = some (.arr vs)) (hv : vs.filter Json.isObject = [v]) :
    Child declares ⟨.array i n, .obj is, c⟩ ⟨n, v, false⟩
  | itemList {i n is c vs} (h : is.lookup "items" = some (.arr vs)) (hvs : 2 ≤ (vs.filter Json.isObject).length) :
    Child declares ⟨.array i n, .obj is, c⟩ ⟨n, .arr vs, false⟩
  | entry {i ms e vs c v m} (h : (v, m) ∈ (vs.filter Json.isObject).zip ms) :
    Child declares ⟨.union i ms e, .arr vs, c⟩ ⟨m, v, false⟩
  | member {i ms e is c m} (h : m ∈ ms) : Child declares ⟨.union i ms e, .obj is, c⟩ ⟨m, .obj is, c⟩

/-- **The second node is the first or one inside of it**, each with its source. -/
def Reaches (declares : String → Json → Prop) : Sourced → Sourced → Prop := Relation.ReflTransGen (Child declares)

end Sourced

/-- **The node of a value**, under a name: what it is parsed to on its own, at whatever place. -/
def ParsedAs (raw name : Json) (isRequired : Bool) (n : Node) : Prop :=
  ∀ path, (parse none raw name isRequired path).outcome {} = .ok n

/-- **The properties of a schema**: the nodes of the values under its keys, in their order. -/
def PropertiesOf (ms : Members) (ps : List Node) : Prop :=
  ∃ required, Keywords.required ms = .ok required ∧
    List.Forall₂ (fun e p => ParsedAs e.2 (.str e.1) (required.contains e.1) p) (schemasIn ms "properties") ps

namespace Sourced

variable {declares : String → Json → Prop} {s t : Sourced}

/-- **A node that has from its source what it should**, and nothing inside without a source but what admits any value.
-/
structure Accurate (declares : String → Json → Prop) (s : Sourced) : Prop where
  properties : ∀ i ps ds, s.node = .object i ps ds → ∃ is, s.raw = .obj is ∧ PropertiesOf is ps
  children : ∀ c, Node.Child s.node c → c = .anything ∨ ∃ t, s.Child declares t ∧ t.node = c

/-- **All that is reached is accurate.** -/
def Faithful (declares : String → Json → Prop) (s : Sourced) : Prop := ∀ t, s.Reaches declares t → t.Accurate declares

theorem Child.withInfo {n : Node} {v : Json} {c : Bool} (h : Child declares ⟨n, v, c⟩ t) (f : Info → Info) :
    Child declares ⟨n.withInfo f, v, c⟩ t := by
  cases h with
  | property h => exact .property h
  | definition h => exact .definition h
  | customType h hv => exact .customType h hv
  | items h => exact .items h
  | item h hv => exact .item h hv
  | itemList h hvs => exact .itemList h hvs
  | entry h => exact .entry h
  | member h => exact .member h

theorem Child.of_withInfo {n : Node} {v : Json} {c : Bool} {f : Info → Info}
    (h : Child declares ⟨n.withInfo f, v, c⟩ t) : Child declares ⟨n, v, c⟩ t := by
  have hback : (n.withInfo f).withInfo (fun _ => n.info) = n := by cases n <;> rfl
  have h := h.withInfo (fun _ => n.info)
  rwa [hback] at h

theorem exists_zip {α β : Type} {R : α → β → Prop} {as : List α} {bs : List β} (h : List.Forall₂ R as bs) {b : β}
    (hb : b ∈ bs) : ∃ a, (a, b) ∈ as.zip bs := by
  induction h with
  | nil => cases hb
  | @cons a b' as bs hab _ ih =>
    rcases List.mem_cons.1 hb with rfl | hb
    · exact ⟨a, List.mem_cons_self⟩
    · obtain ⟨a', ha'⟩ := ih hb
      exact ⟨a', List.mem_cons_of_mem _ ha'⟩

theorem map_eq_of_related {α β γ : Type} {R : α → β → Prop} {f : α → γ} {g : β → γ} {as : List α} {bs : List β}
    (h : List.Forall₂ R as bs) (hR : ∀ a b, R a b → f a = g b) : as.map f = bs.map g := by
  have hmaps : List.Forall₂ Eq (as.map f) (bs.map g) :=
    List.forall₂_map_left_iff.2 (List.forall₂_map_right_iff.2 (h.imp hR))
  rwa [List.forall₂_eq_eq_eq] at hmaps

theorem exists_related {α β : Type} {R : α → β → Prop} {as : List α} {bs : List β} (h : List.Forall₂ R as bs) {b : β}
    (hb : b ∈ bs) : ∃ a ∈ as, R a b := by
  obtain ⟨a, ha⟩ := exists_zip h hb
  exact ⟨a, (List.of_mem_zip ha).1, (List.forall₂_iff_zip.1 h).2 ha⟩

variable {ms : Members}

/-- What the items of an array are parsed from. -/
inductive ItemsOf (ms : Members) : Json → Prop where
  | one {js} (h : ms.lookup "items" = some (.obj js)) : ItemsOf ms (.obj js)
  | sole {vs v} (h : ms.lookup "items" = some (.arr vs)) (hv : vs.filter Json.isObject = [v]) : ItemsOf ms v
  | several {vs} (h : ms.lookup "items" = some (.arr vs)) (hvs : 2 ≤ (vs.filter Json.isObject).length) :
    ItemsOf ms (.arr vs)

theorem ItemsOf.unique {v w : Json} (hv : ItemsOf ms v) (hw : ItemsOf ms w) : v = w := by
  cases hv <;> cases hw <;> simp_all

end Sourced

end Parser
end TrackingPlan
