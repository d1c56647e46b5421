import Mathlib.Logic.Relation
import TrackingPlan.Schema.Node
/-!
# Node — what lies inside a node

A node `Contains` itself and what its items, properties, definitions and members contain.  It `Names` a custom type
when a node in it refers to that type, and is `Solid` when no bare node lies in it.
-/
namespace TrackingPlan
namespace Node

/-- The second node lies directly in the first. -/
inductive Child : Node → Node → Prop where
  | items (i : Info) (n : Node) : Child (.array i n) n
  | property {i ps ds p} (h : p ∈ ps) : Child (.object i ps ds) p
  | definition {i ps ds k d} (h : (k, d) ∈ ds) : Child (.object i ps ds) d
  | member {i ms e m} (h : m ∈ ms) : Child (.union i ms e) m

/-- **The second node is the first or one of its descendants.** -/
def Contains : Node → Node → Prop := Relation.ReflTransGen Child

/-- Some node in this one refers to the custom type. -/
def Names (n : Node) (id : String) : Prop := ∃ m, n.Contains m ∧ m.info.refName = some id

/-- **Nothing in the node is bare.** -/
def Solid (n : Node) : Prop := ∀ i, ¬n.Contains (.bare i)

theorem Solid.of_contains {n m : Node} (h : n.Solid) (hm : n.Contains m) : m.Solid := fun i hi => h i (hm.trans hi)

theorem info_withInfo (f : Info → Info) (n : Node) : (n.withInfo f).info = f n.info := by
  cases n <;> rfl

theorem Child.of_withInfo {f : Info → Info} {n c : Node} (h : Child (n.withInfo f) c) : Child n c := by
  cases n with
  | bare => cases h
  | primitive => cases h
  | array => cases h; exact .items _ _
  | object =>
    cases h with
    | property h => exact .property h
    | definition h => exact .definition h
  | union => cases h with | member h => exact .member h

theorem Names.cases {n : Node} {id : String} (h : n.Names id) :
    n.info.refName = some id ∨ ∃ c, Child n c ∧ c.Names id := by
  obtain ⟨m, hm, hr⟩ := h
  rcases Relation.ReflTransGen.cases_head hm with rfl | ⟨c, hc, hcm⟩
  · exact .inl hr
  · exact .inr ⟨c, hc, m, hcm, hr⟩

theorem Names.of_child {n c : Node} {id : String} (hc : Child n c) (h : c.Names id) : n.Names id := by
  obtain ⟨m, hm, hr⟩ := h
  exact ⟨m, .head hc hm, hr⟩

theorem Names.of_info {n : Node} {id : String} (h : n.info.refName = some id) : n.Names id := ⟨n, .refl, h⟩

theorem Names.of_withInfo {f : Info → Info} {n : Node} {id : String} (h : (n.withInfo f).Names id) :
    (f n.info).refName = some id ∨ n.Names id := by
  rcases h.cases with hr | ⟨c, hc, hn⟩
  · exact .inl (by rw [← info_withInfo f n]; exact hr)
  · exact .inr (.of_child hc.of_withInfo hn)

end Node
end TrackingPlan
