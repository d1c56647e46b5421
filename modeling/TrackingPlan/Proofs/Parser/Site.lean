import Mathlib.Logic.Relation
import TrackingPlan.Schema.Parser
import TrackingPlan.Table
/-!
# Site — the subschemas that a parse reaches

A `Site` is a value that a parse takes for a schema, with its place.  From a site of type object the parse goes on to
the properties and definitions, from one of type array to the items (`Inside`); `Reaches` is any number of such steps.
A site `Refers` to what its reference names, and `Blames` a fault for what is wrong with the site itself.
-/
namespace TrackingPlan
namespace Parser

open Keywords (Members)

structure Site where
  raw : Json
  /-- Taken for an array and an object, as it declares neither. -/
  untyped : Bool
  place : Location

/-- The members of a keyword that holds an object. -/
def membersIn (ms : Members) (key : String) : Members :=
  match ms.lookup key with
  | some (.obj ds) => ds
  | _ => []

/-- Whether an item has properties, but neither a reference nor a type. -/
def isUntyped (ms : Members) : Bool := (Keywords.reference? ms).isNone && isTypeless ms

/-- Whether an item list has a single schema. -/
def isSole (vs : List Json) : Bool := (vs.filter Json.isObject).length == 1

/-- **The sites directly inside a schema**, as far as one of its types calls for them.  The definitions at the root
are taken for custom types by a linked parse, and are no sites of it. -/
inductive Inside (linked : Bool) (ms : Members) (place : Location) : RawType → Site → Prop where
  | property {k v} (hk : (k, v) ∈ membersIn ms "properties") (hv : v.isBool = false) :
    Inside linked ms place .object ⟨v, false, Pointer.property place k⟩
  | definition {k v} (hr : ¬(linked ∧ place = Pointer.root)) (hk : (k, v) ∈ membersIn ms "$defs")
    (hv : v.isBool = false) : Inside linked ms place .object ⟨v, false, Pointer.definition place k⟩
  | items {is} (h : ms.lookup "items" = some (.obj is)) :
    Inside linked ms place .array ⟨.obj is, isUntyped is, Pointer.items place⟩
  | item {vs i is} (h : ms.lookup "items" = some (.arr vs)) (hi : vs[i]? = some (.obj is)) :
    Inside linked ms place .array ⟨.obj is, isSole vs && isUntyped is, Pointer.item place i⟩

/-- What is wrong with a schema's own keywords, as far as one of its types calls for them. -/
inductive Faulty (ms : Members) : RawType → Fault → Prop where
  | required {f} (h : Keywords.required ms = .error f) : Faulty ms .object f
  | members {key v} (hk : key = "properties" ∨ key = "$defs") (h : ms.lookup key = some v) (hv : v.isObject = false)
    (hg : v.isGiven = true) : Faulty ms .object .notAnObject

namespace Site

/-- The types a site is parsed by. -/
def types (s : Site) : Except Json (List RawType) :=
  match s.raw with
  | .obj ms => if s.untyped then .ok [.array, .object] else Keywords.types ms
  | _ => .ok []

def reference? (s : Site) : Option String :=
  match s.raw with
  | .obj ms => Keywords.reference? ms
  | _ => none

def Child (linked : Bool) (s c : Site) : Prop :=
  ∃ ms ts t, s.raw = .obj ms ∧ s.types = .ok ts ∧ t ∈ ts ∧ Inside linked ms s.place t c

/-- **A parse from the first site reaches the second.** -/
def Reaches (linked : Bool) : Site → Site → Prop := Relation.ReflTransGen (Child linked)

/-- **The fault that a site is at.** -/
inductive Blames (s : Site) : Fault → Prop where
  | notSchema (h : s.raw.isObject = false) : Blames s (.schema (.located (.notSchema s.raw) s.place))
  | unsupported {v} (h : s.types = .error v) : Blames s (.schema (.located (.unsupportedType v) s.place))
  | keyword {ms ts t f} (h : s.raw = .obj ms) (hts : s.types = .ok ts) (ht : t ∈ ts) (hf : Faulty ms t f) : Blames s f

end Site

/-! ## Views as the values they are of -/

variable {linked : Bool}

theorem lookup_views (ms : Members) (key : String) :
    (ms.map (fun e => (e.1, view linked e.2))).lookup key = (ms.lookup key).map (view linked) :=
  Table.lookup_map (view linked) ms key

theorem membersOf_ok {ms : Members} {key : String} {ps : List (String × Part)}
    (h : membersOf ((ms.lookup key).map (view linked)) = .ok ps) :
    ps = (membersIn ms key).map (fun e => (e.1, (view linked e.2).toPart)) ∧
      ∀ v, ms.lookup key = some v → v.isObject = false → v.isGiven = false := by
  unfold membersIn
  cases hl : ms.lookup key with
  | none =>
    rw [hl] at h; cases h
    exact ⟨rfl, fun _ hv => by cases hv⟩
  | some v =>
    rw [hl, Option.map_some, membersOf, view_raw] at h
    cases v with
    | obj ds =>
      cases h
      exact ⟨members_view_obj linked ds, fun _ hv ho => by cases hv; cases ho⟩
    | _ =>
      simp only at h
      split at h
      · cases h
      · next hg =>
        cases h
        exact ⟨rfl, fun _ hv _ => by cases hv; exact Bool.eq_false_iff.2 hg⟩

theorem membersOf_error {ms : Members} {key : String} {f : Fault}
    (h : membersOf ((ms.lookup key).map (view linked)) = .error f) :
    f = .notAnObject ∧ ∃ v, ms.lookup key = some v ∧ v.isObject = false ∧ v.isGiven = true := by
  cases hl : ms.lookup key with
  | none => rw [hl] at h; cases h
  | some v =>
    rw [hl, Option.map_some, membersOf, view_raw] at h
    cases v with
    | obj ds => cases h
    | _ =>
      simp only at h
      split at h
      · next hg => cases h; exact ⟨rfl, _, rfl, rfl, hg⟩
      · cases h

/-! ## Item lists -/

theorem mem_schemaEntries {path place : Location} {p : Part} : ∀ {ps : List Part} {n : Nat},
    (place, p) ∈ schemaEntries path n ps ↔
      ∃ i, ps[i]? = some p ∧ p.raw.isObject = true ∧ place = Pointer.item path (n + i)
  | [], n => by simp [schemaEntries]
  | q :: ps, n => by
    have hstep : (∃ i, (q :: ps)[i]? = some p ∧ p.raw.isObject = true ∧ place = Pointer.item path (n + i)) ↔
        (q = p ∧ p.raw.isObject = true ∧ place = Pointer.item path n) ∨
          (place, p) ∈ schemaEntries path (n + 1) ps := by
      rw [mem_schemaEntries]
      constructor
      · rintro ⟨i, hi, ho, hp⟩
        cases i with
        | zero => exact .inl ⟨by simpa using hi, ho, hp⟩
        | succ i => exact .inr ⟨i, by simpa using hi, ho, by rw [hp]; congr 1; omega⟩
      · rintro (⟨rfl, ho, hp⟩ | ⟨i, hi, ho, hp⟩)
        · exact ⟨0, rfl, ho, hp⟩
        · exact ⟨i + 1, by simpa using hi, ho, by rw [hp]; congr 1; omega⟩
    rw [hstep, schemaEntries]
    split
    · next hq =>
      rw [List.mem_cons, Prod.mk.injEq]
      refine or_congr ⟨fun h => ⟨h.2.symm, h.2 ▸ hq, h.1⟩, fun h => ⟨h.2.2, h.1.symm⟩⟩ Iff.rfl
    · next hq =>
      refine ⟨.inr, fun h => h.resolve_left ?_⟩
      rintro ⟨rfl, ho, -⟩
      exact hq ho

theorem length_schemaEntries (path : Location) : ∀ (vs : List Json) (n : Nat),
    (schemaEntries path n (vs.map (fun v => (view linked v).toPart))).length = (vs.filter Json.isObject).length
  | [], _ => rfl
  | v :: vs, n => by
    rw [List.map_cons, schemaEntries, view_raw, List.filter_cons]
    split
    · rw [List.length_cons, List.length_cons, length_schemaEntries path vs]
    · exact length_schemaEntries path vs (n + 1)

/-! ## Values inside a value -/

theorem sizeOf_member {ms : Members} {k : String} {v : Json} (h : (k, v) ∈ ms) : sizeOf v < sizeOf (Json.obj ms) := by
  have hm := List.sizeOf_lt_of_mem h
  simp only [Prod.mk.sizeOf_spec] at hm
  rw [Json.obj.sizeOf_spec]
  omega

theorem sizeOf_item {vs : List Json} {v : Json} (h : v ∈ vs) : sizeOf v < sizeOf (Json.arr vs) := by
  have hm := List.sizeOf_lt_of_mem h
  rw [Json.arr.sizeOf_spec]
  omega

theorem sizeOf_membersIn {ms : Members} {key k : String} {v : Json} (h : (k, v) ∈ membersIn ms key) :
    sizeOf v < sizeOf (Json.obj ms) := by
  unfold membersIn at h
  split at h
  · next ds hl => exact Nat.lt_trans (sizeOf_member h) (sizeOf_member (Table.mem_of_lookup hl))
  · cases h

theorem sizeOf_lookup {ms : Members} {k : String} {v : Json} (h : ms.lookup k = some v) :
    sizeOf v < sizeOf (Json.obj ms) :=
  sizeOf_member (Table.mem_of_lookup h)

end Parser
end TrackingPlan
