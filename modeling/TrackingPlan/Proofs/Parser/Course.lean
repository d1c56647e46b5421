import TrackingPlan.Proofs.Node
import TrackingPlan.Proofs.Parser.Site
import TrackingPlan.Proofs.Script
/-!
# Course — what a parse asks, fails by and names

A parse asks for the references of the sites it reaches and for the definitions at the root (`Site.Asks`), and for
nothing else; a fault of its own is one that such a site is at.  When it ends, it was at every site it reaches and
found nothing wrong there (`Site.Settled`), and all that its node names was asked for (`NamedBy`).  `InOrder` is the
share of one type of a schema in this.
-/
namespace TrackingPlan
/-- The custom type that an answered request names, or that the answer does. -/
def Script.Request.Names (id : String) : Script.Request → Prop
  | .reference ref _ => Pointer.target? ref = some id
  | .definition _ _ n => n.Names id

namespace Parser

open Keywords (Members)
open Script (Request Spec)

namespace Site

/-- What a site asks for: that its reference resolves, and the custom types of the definitions at the root. -/
inductive Asks (linked : Bool) (s : Site) : Request → Prop where
  | reference {ref} (h : s.reference? = some ref) : Asks linked s (.reference ref s.place)
  | definition {ms ts k v n} (hl : linked ∧ s.place = Pointer.root) (hr : s.raw = .obj ms) (hts : s.types = .ok ts)
    (ht : RawType.object ∈ ts) (hk : (k, v) ∈ membersIn ms "$defs") (hv : v.isBool = false) :
    Asks linked s (.definition k s.place n)

/-- A site that the parse from `s` reaches asks this. -/
def Asked (linked : Bool) (s : Site) (q : Request) : Prop := ∃ t, s.Reaches linked t ∧ t.Asks linked q

/-- A site that the parse from `s` reaches is at this fault. -/
def Blamed (linked : Bool) (s : Site) (f : Fault) : Prop := ∃ t, s.Reaches linked t ∧ t.Blames f

/-- **All that a parse from the site reaches is in order**, and its references are among the requests. -/
def Settled (linked : Bool) (s : Site) (rs : List Request) : Prop :=
  ∀ t, s.Reaches linked t → (∀ f, ¬t.Blames f) ∧ ∀ ref, t.reference? = some ref → .reference ref t.place ∈ rs

variable {linked : Bool} {s c : Site}

theorem Asked.of_child (hc : s.Child linked c) {q : Request} (h : c.Asked linked q) : s.Asked linked q := by
  obtain ⟨t, ht, hq⟩ := h
  exact ⟨t, .head hc ht, hq⟩

theorem Blamed.of_child (hc : s.Child linked c) {f : Fault} (h : c.Blamed linked f) : s.Blamed linked f := by
  obtain ⟨t, ht, hf⟩ := h
  exact ⟨t, .head hc ht, hf⟩

theorem settled_grows : Script.Grows (s.Settled linked) := fun _ _ h hrs t ht =>
  ⟨(h t ht).1, fun ref hr => hrs _ ((h t ht).2 ref hr)⟩

end Site

open Site

variable {linked : Bool}

/-! ## Names -/

/-- **All that the node names was asked for.** -/
def NamedBy (rs : List Request) (n : Node) : Prop := ∀ id, n.Names id → ∃ q ∈ rs, q.Names id

theorem namedBy_grows (n : Node) : Script.Grows (NamedBy · n) := fun _ _ h hrs id hid => by
  obtain ⟨q, hq, hn⟩ := h id hid
  exact ⟨q, hrs q hq, hn⟩

theorem NamedBy.of_children {rs : List Request} {n : Node} (hi : n.info.refName = none)
    (h : ∀ c, Node.Child n c → NamedBy rs c) : NamedBy rs n := fun id hid => by
  rcases hid.cases with hr | ⟨c, hc, hn⟩
  · rw [hi] at hr; cases hr
  · exact h c hc id hn

theorem namedBy_primitive (rs : List Request) (p : Primitive) (e : Option (List Json)) :
    NamedBy rs (.primitive {} p e) := .of_children rfl (fun _ hc => by cases hc)

theorem NamedBy.array {rs : List Request} {n : Node} (h : NamedBy rs n) : NamedBy rs (.array {} n) :=
  .of_children rfl (fun _ hc => by cases hc; exact h)

theorem namedBy_anything (rs : List Request) : NamedBy rs (.array {} .anything) :=
  (namedBy_primitive rs .any none).array

theorem NamedBy.referring {rs : List Request} {n : Node} (h : NamedBy rs n) :
    NamedBy rs (.array { refName := n.info.refName } n) := fun id hid => by
  rcases hid.cases with hr | ⟨c, hc, hn⟩
  · exact h id (.of_info hr)
  · cases hc; exact h id hn

theorem NamedBy.object {rs : List Request} {ps : List Node} {ds : List (String × Node)} (hp : ∀ p ∈ ps, NamedBy rs p)
    (hd : ∀ e ∈ ds, NamedBy rs e.2) : NamedBy rs (.object {} ps ds) :=
  .of_children rfl (fun _ hc => by
    cases hc with
    | property h => exact hp _ h
    | definition h => exact hd _ h)

theorem NamedBy.union {rs : List Request} {ms : List Node} {e : Option (List Json)} (h : ∀ m ∈ ms, NamedBy rs m) :
    NamedBy rs (.union {} ms e) :=
  .of_children rfl (fun _ hc => by cases hc with | member hm => exact h _ hm)

theorem NamedBy.describe {rs : List Request} {n : Node} (h : NamedBy rs n) {ms : Members} (types : List RawType)
    (name : Json) (isRequired : Bool)
    (hr : ∀ ref, Keywords.reference? ms = some ref → ∃ place, .reference ref place ∈ rs) :
    NamedBy rs (Keywords.describe ms types name isRequired n) := fun id hid => by
  rcases Node.Names.of_withInfo hid with hi | hn
  · cases href : Keywords.reference? ms with
    | some ref =>
      obtain ⟨place, hm⟩ := hr ref href
      simp only [href] at hi
      exact ⟨_, hm, hi⟩
    | none =>
      simp only [href] at hi
      exact h id (.of_info hi)
  · exact h id hn

/-! ## One type of a schema -/

/-- **All is in order as far as one type of a schema calls for it.** -/
structure InOrder (linked : Bool) (ms : Members) (place : Location) (rs : List Request) (t : RawType) : Prop where
  settled : ∀ c, Inside linked ms place t c → c.Settled linked rs
  faultless : ∀ f, ¬Faulty ms t f

theorem inOrder_grows {ms : Members} {place : Location} (t : RawType) :
    Script.Grows (InOrder linked ms place · t) := fun _ _ h hrs =>
  ⟨fun c hc => settled_grows _ _ (h.settled c hc) hrs, h.faultless⟩

theorem inOrder_plain {ms : Members} {place : Location} {rs : List Request} {t : RawType} (ho : t ≠ .object)
    (ha : t ≠ .array) : InOrder linked ms place rs t where
  settled _ hc := by
    cases hc with
    | property | definition => exact absurd rfl ho
    | items | item => exact absurd rfl ha
  faultless _ hf := by cases hf <;> exact absurd rfl ho

theorem inOrder_object {ms : Members} {place : Location} {rs : List Request}
    (hreq : ∀ f, Keywords.required ms ≠ .error f)
    (hobj : ∀ key v, key = "properties" ∨ key = "$defs" → ms.lookup key = some v → v.isObject = false →
      v.isGiven = false)
    (hprops : ∀ k v, (k, v) ∈ membersIn ms "properties" → v.isBool = false →
      Settled linked ⟨v, false, Pointer.property place k⟩ rs)
    (hdefs : ¬(linked ∧ place = Pointer.root) → ∀ k v, (k, v) ∈ membersIn ms "$defs" → v.isBool = false →
      Settled linked ⟨v, false, Pointer.definition place k⟩ rs) : InOrder linked ms place rs .object where
  settled _ hc := by
    cases hc with
    | property hk hb => exact hprops _ _ hk hb
    | definition hroot hk hb => exact hdefs hroot _ _ hk hb
  faultless _ hf := by
    cases hf with
    | required hf => exact hreq _ hf
    | members hk hl ho hg => rw [hobj _ _ hk hl ho] at hg; cases hg

theorem inOrder_items {ms is : Members} {place : Location} {rs : List Request} (hl : ms.lookup "items" = some (.obj is))
    (h : Settled linked ⟨.obj is, isUntyped is, Pointer.items place⟩ rs) : InOrder linked ms place rs .array where
  settled _ hc := by
    cases hc with
    | items h' => rw [hl] at h'; cases h'; exact h
    | item h' => rw [hl] at h'; cases h'
  faultless _ hf := by cases hf

theorem inOrder_itemList {ms : Members} {vs : List Json} {place : Location} {rs : List Request}
    (hl : ms.lookup "items" = some (.arr vs)) (h : ∀ i is, vs[i]? = some (.obj is) →
      Settled linked ⟨.obj is, isSole vs && isUntyped is, Pointer.item place i⟩ rs) :
    InOrder linked ms place rs .array where
  settled _ hc := by
    cases hc with
    | items h' => rw [hl] at h'; cases h'
    | item h' hi => rw [hl] at h'; cases h'; exact h _ _ hi
  faultless _ hf := by cases hf

theorem inOrder_noItems {ms : Members} {place : Location} {rs : List Request}
    (hobj : ∀ is, ms.lookup "items" ≠ some (.obj is)) (harr : ∀ vs, ms.lookup "items" ≠ some (.arr vs)) :
    InOrder linked ms place rs .array where
  settled _ hc := by
    cases hc with
    | items h => exact absurd h (hobj _)
    | item h => exact absurd h (harr _)
  faultless _ hf := by cases hf

theorem Site.Settled.of_types {s : Site} {rs : List Request} {ms : Members} {ts : List RawType} (hr : s.raw = .obj ms)
    (hts : s.types = .ok ts) (h : ∀ t ∈ ts, InOrder linked ms s.place rs t)
    (href : ∀ ref, s.reference? = some ref → .reference ref s.place ∈ rs) : s.Settled linked rs := fun t ht => by
  rcases Relation.ReflTransGen.cases_head ht with rfl | ⟨c, ⟨ms', ts', t', hr', hts', ht', hc⟩, hct⟩
  · refine ⟨fun f hf => ?_, href⟩
    cases hf with
    | notSchema hn => rw [hr] at hn; cases hn
    | unsupported he => rw [hts] at he; cases he
    | keyword hr' hts' ht' hf =>
      rw [hr] at hr'; cases hr'
      rw [hts] at hts'; cases hts'
      exact (h _ ht').faultless _ hf
  · rw [hr] at hr'; cases hr'
    rw [hts] at hts'; cases hts'
    exact (h _ ht').settled c hc t hct

end Parser
end TrackingPlan
