import Mathlib.Data.Set.List
import TrackingPlan.Proofs.Build.WellFormed
import TrackingPlan.Proofs.Identical
import TrackingPlan.Proofs.Resolver.Ring
/-!
# Cycle — a reported cycle of custom types is in the document

The rings that a resolver reports are rings of definitions that the document declares by key: only such definitions can
be referred to (`realCycle_of_ring`).  So whenever a cycle of custom types is reported, by the resolution of all
definitions or while a build is prepared, it stands in the document, without repetition, and the place is that of the
reference which closes it (`reported_cycle_is_real`).
-/
namespace TrackingPlan

namespace Definitions

/-- Only a document that declares its definitions by key has one for a key. -/
theorem keyed_of_find?_key {ds : Definitions} {k : String} {d : Json} (h : ds.find? (.key k) = .ok (some d)) :
    ∃ ms, ds = .keyed ms := by
  cases ds with
  | keyed ms => exact ⟨ms, rfl⟩
  | listed vs =>
    simp only [find?] at h
    split at h <;> cases h
  | text s =>
    simp only [find?] at h
    split at h <;> cases h
  | other => cases h

theorem mem_of_find?_keyed {ms : List (String × Json)} {id : DefId} {d : Json}
    (h : (keyed ms).find? id = .ok (some d)) : ∃ k, id = .key k ∧ (k, d) ∈ ms := by
  cases id with
  | key k => exact ⟨k, rfl, Table.mem_of_lookup (Except.ok.inj h)⟩
  | _ => cases h

end Definitions

namespace Build

open Keywords (Members)
open TrackingPlan.Parser (Site membersIn)

/-- **A subschema of the first definition, at this place, has a reference that names the second.** -/
def RefersFrom (ms : Members) (a b : String) (place : Location) : Prop :=
  ∃ d s ref, Declares ms a d ∧ (definitionSite a d).Reaches true s ∧ s.reference? = some ref ∧
    Pointer.target? ref = some b ∧ s.place = place

/-- **A cycle of custom types that is in the document**, closed by a reference at this place. -/
def RealCycle (ms : Members) (ids : List String) (place : Location) : Prop :=
  IsRing (fun k => ∃ d, Declares ms k d) (RefersFrom ms) ids place

variable {ms : Members} {r : Resolver}

theorem members_of_ofJson? {ds : Members} (h : Definitions.ofJson? (ms.lookup "$defs") = .keyed ds) :
    ds = membersIn ms "$defs" := by
  unfold membersIn
  unfold Definitions.ofJson? at h
  split at h
  · next ds' hl => cases h; rw [hl]
  · cases h
  · next s hl =>
    split at h
    · cases h; rw [hl]
    · cases h
  · next v hobj harr hstr hl =>
    split at h
    · cases h
    · cases h
      rw [hl]
      cases v with
      | obj ds' => exact absurd rfl (hobj ds')
      | _ => rfl
  · next hl => cases h; rw [hl]

theorem reference?_of_bool {s t : Site} (hs : s.raw.isBool = true) (h : s.Reaches true t) : t.reference? = none := by
  have hobj : ∀ is, s.raw ≠ .obj is := fun is he => by rw [he] at hs; cases hs
  rcases Relation.ReflTransGen.cases_head h with rfl | ⟨c, ⟨is, -, -, hr, -⟩, -⟩
  · unfold Site.reference?
    split
    · next is hr => exact absurd hr (hobj is)
    · rfl
  · exact absurd hr (hobj is)

section

variable (hdefs : r.definitions = Definitions.ofJson? (ms.lookup "$defs"))

include hdefs

theorem refersFrom_of_refersAt {a b : DefId} {place : Location} (h : r.RefersAt a b place)
    {ds : Members} (hkeyed : r.definitions = .keyed ds) : ∃ k j, a = .key k ∧ b = .key j ∧ RefersFrom ms k j place := by
  obtain ⟨d, s, ref, j, hd, hreach, href, htarget, rfl, hplace⟩ := h
  rw [hkeyed] at hd
  obtain ⟨k, rfl, hk⟩ := Definitions.mem_of_find?_keyed hd
  rw [members_of_ofJson? (hdefs.symm.trans hkeyed)] at hk
  refine ⟨k, j, rfl, rfl, d, s, ref, ⟨hk, Bool.eq_false_iff.2 fun hb => ?_⟩, hreach, href, htarget, hplace⟩
  rw [reference?_of_bool hb hreach] at href
  cases href

/-- **A ring that a resolver reports is a cycle of custom types.** -/
theorem realCycle_of_ring {c : List DefId} {place : Location} (h : r.Ring c place) :
    ∃ ids : List String, c = ids.map .key ∧ RealCycle ms ids place := by
  obtain ⟨a, b, hlast, hb, hrefers⟩ := h.closing
  obtain ⟨k, rfl⟩ : ∃ k, b = .key k := by
    obtain ⟨-, -, -, k, -, -, -, -, hk, -⟩ := hrefers
    exact ⟨k, hk⟩
  have hsplit : c.dropLast ++ [.key k] = c := List.dropLast_append_getLast? _ hb
  -- the document declares by key, since the definition that is referred to is declared
  obtain ⟨ds, hkeyed⟩ : ∃ ds, r.definitions = .keyed ds := by
    have hfirst : .key k ∈ c.dropLast := by
      obtain ⟨x, hx⟩ : ∃ x, c.dropLast.head? = some x := by
        cases hd : c.dropLast with
        | nil => rw [hd] at hlast; cases hlast
        | cons x _ => exact ⟨x, rfl⟩
      have hhead := h.closed
      rw [hb, ← hsplit, List.head?_append, hx] at hhead
      cases Option.some.inj hhead
      exact List.mem_of_mem_head? hx
    obtain ⟨d, hd⟩ := h.declared _ hfirst
    exact Definitions.keyed_of_find?_key hd
  obtain ⟨ids, rfl⟩ : ∃ ids : List String, ids.map .key = c := by
    have hkeys : ∀ i ∈ c, i ∈ Set.range DefId.key := by
      intro i hi
      rw [← hsplit, List.mem_append, List.mem_singleton] at hi
      rcases hi with hi | rfl
      · obtain ⟨d, hd⟩ := h.declared i hi
        rw [hkeyed] at hd
        obtain ⟨j, rfl, -⟩ := Definitions.mem_of_find?_keyed hd
        exact ⟨j, rfl⟩
      · exact ⟨k, rfl⟩
    have hrange : c ∈ Set.range (List.map DefId.key) := by rw [Set.range_list_map]; exact hkeys
    exact hrange
  refine ⟨ids, rfl, h.of_map (fun _ _ he => DefId.key.inj he) (fun i j place hij => ?_) ?_⟩
  · obtain ⟨i', j', hi, hj, hfrom⟩ := refersFrom_of_refersAt hdefs hij hkeyed
    cases hi
    cases hj
    exact hfrom
  · rintro i j place ⟨d, -, -, hd, -⟩
    exact ⟨d, hd⟩

end

/-! ## Reports -/

/-- **A fault that the resolution of all definitions ends with**, after any other calls, or the preparation of a
build. -/
inductive Raises (raw : Json) : Fault → Prop where
  | resolveAll {source template r calls f} (hr : Resolver.ofDocument raw source template = .ok r)
    (h : r.resolveAll.outcome (r.performAll calls) = .error f) : Raises raw f
  | prepare {eventName options f} (h : (prepare raw eventName options).outcome {} = .error f) : Raises raw f

theorem definitions_of_ofDocument {raw : Json} {source : String} {template : Json}
    (h : Resolver.ofDocument raw source template = .ok r) :
    ∃ ms, raw = .obj ms ∧ r.definitions = Definitions.ofJson? (ms.lookup "$defs") := by
  cases raw with
  | obj ms => cases h; exact ⟨ms, rfl, rfl⟩
  | _ => cases h

/-- **The preparation of a build reports the rings of the document's resolver only.** -/
theorem ring_of_prepare {raw : Json} {eventName : String} {options : Options} {f : Fault} {c : List DefId}
    {place : Location} (h : (prepare raw eventName options).outcome {} = .error f) (hf : f.Reports c place) :
    ∃ r, Resolver.ofDocument raw eventName options.description = .ok r ∧ r.Ring c place := by
  rcases prepare_fails h with ⟨-, rfl⟩ | ⟨r, hr, hall | hparse⟩
  · obtain ⟨e, he, hc, -⟩ := hf
    cases he
    cases hc
  · exact ⟨r, hr, Resolver.resolveAll_ring r.valid_empty rfl hall hf⟩
  · obtain ⟨hl, hnone⟩ := r.valid_performAll [.all]
    exact ⟨r, hr, Resolver.parse_ring hl hnone hparse hf⟩

/-- **A cycle of custom types that is reported is in the document.** -/
theorem reported_cycle_is_real {raw : Json} {e : SchemaError} {ids : List DefId} (hcause : e.cause = .cycle ids)
    (h : Raises raw (.schema e)) :
    ∃ ms ks, raw = .obj ms ∧ ids = ks.map .key ∧ RealCycle ms ks e.path := by
  have hreports : (Fault.schema e).Reports ids e.path := ⟨e, rfl, hcause, rfl⟩
  obtain ⟨r, source, template, hr, hring⟩ :
      ∃ r source template, Resolver.ofDocument raw source template = .ok r ∧ r.Ring ids e.path := by
    cases h with
    | @resolveAll source template r calls _ hr h =>
      have hv := Resolver.valid_performAll r calls
      exact ⟨r, source, template, hr, Resolver.resolveAll_ring hv.1 hv.2 h hreports⟩
    | @prepare eventName options _ h =>
      obtain ⟨r, hr, hring⟩ := ring_of_prepare h hreports
      exact ⟨r, _, _, hr, hring⟩
  obtain ⟨ms, rfl, hdefs⟩ := definitions_of_ofDocument hr
  obtain ⟨ks, hks, hreal⟩ := realCycle_of_ring hdefs hring
  exact ⟨ms, ks, rfl, hks, hreal⟩

/-- A definition that leads to a cycle of two others. -/
def leadIn : Members :=
  [("$defs", .obj
    [("Order", .obj [("type", .str "object"), ("properties", .obj [("lines", .obj [("$ref", .str "#/$defs/Lines")])])]),
      ("Lines", .obj [("type", .str "array"), ("items", .obj [("$ref", .str "#/$defs/Line")])]),
      ("Line", .obj
        [("type", .str "object"), ("properties", .obj [("rest", .obj [("$ref", .str "#/$defs/Lines")])])])])]

def leadInError : SchemaError := .cyclic [.key "Lines", .key "Line", .key "Lines"] "#/$defs/Line/properties/rest"

theorem prepare_leadIn : (prepare (.obj leadIn) "Ordered" {}).outcome {} = .error (.schema leadInError) := by
  decide +kernel

theorem reported_cycle_of_lead_in : leadInError.cause = .cycle [.key "Lines", .key "Line", .key "Lines"] ∧
    Raises (.obj leadIn) (.schema leadInError) ∧
    ∃ ms ks, .obj leadIn = Json.obj ms ∧ [.key "Lines", .key "Line", .key "Lines"] = ks.map DefId.key ∧
      RealCycle ms ks leadInError.path :=
  ⟨rfl, .prepare prepare_leadIn, reported_cycle_is_real rfl (.prepare prepare_leadIn)⟩

end Build
end TrackingPlan
