import TrackingPlan.Proofs.Build.Contents
import TrackingPlan.Proofs.Build.Preparation
import TrackingPlan.Proofs.Event.Section
import TrackingPlan.Proofs.Identical
import TrackingPlan.Proofs.Parser.Shape
/-!
# References — a build refers to its own custom types only

Whatever a build hands out names just custom types of the build: what its schema names was asked for when the event was
parsed, what a custom type names was registered before it, and a section names nothing that its event does not
(`no_dangling_reference`).
-/
namespace TrackingPlan
namespace Build

open Keywords (Members)
open TrackingPlan.Parser (membersIn)

/-- **What a build hands out**: its schema, a section of it, what a call sends, or a custom type. -/
inductive Offers (b : Build) : Node → Prop where
  | schema : Offers b b.schema
  | properties : Offers b b.properties
  | traits : Offers b b.traits
  | payload {call n} (h : b.payload call = .ok n) : Offers b n
  | customType {id n} (h : (id, n) ∈ b.customTypes) : Offers b n

variable {ms : Members} {eventName : String} {options : Options} {b : Build}

/-- What is handed out is a custom type, or the schema or something taken from it. -/
theorem Offers.origin {n : Node} (h : b.Offers n) :
    (∃ id, (id, n) ∈ b.customTypes) ∨ n = b.schema ∨ Event.TakenFrom b.schema n := by
  cases h with
  | schema => exact .inr (.inl rfl)
  | properties => exact .inr (.inr (Event.properties_takenFrom _))
  | traits => exact .inr (.inr (Event.traits_takenFrom _))
  | @payload call _ h =>
    unfold Build.payload at h
    cases hc : Call.ofJson call with
    | error f => rw [hc] at h; cases h
    | ok c => rw [hc] at h; cases h; exact .inr (.inr (Event.payload_takenFrom c _))
  | customType h => exact .inl ⟨_, h⟩

namespace Prepared

variable (h : Prepared ms eventName options b)

include h

theorem names_schema {id : String} (hid : b.schema.Names id) : ∃ t, (.key id, t) ∈ b.customTypes := by
  obtain ⟨rs, hends, hrs⟩ := h.schema
  obtain ⟨q, hq, hqid⟩ := (hends.of_spec (Parser.script_keeps ..)).1.2 id hid
  cases q with
  | reference ref place =>
    obtain ⟨k, -, t, hk, -, -, ht⟩ := hrs _ hq
    cases hk.symm.trans hqid
    exact ⟨t, ht⟩
  | definition key place t =>
    obtain ⟨before, after, he⟩ := List.append_of_mem (hrs _ hq)
    obtain ⟨u, hu⟩ := h.sound.names_earlier he id hqid
    exact ⟨u, by rw [he]; exact List.mem_append_left _ hu⟩

/-- **What is handed out names custom types only.** -/
theorem names {n : Node} (hn : b.Offers n) {id : String} (hid : n.Names id) : ∃ t, (.key id, t) ∈ b.customTypes := by
  rcases hn.origin with ⟨i, hi⟩ | rfl | hfrom
  · obtain ⟨before, after, he⟩ := List.append_of_mem hi
    obtain ⟨u, hu⟩ := h.sound.names_earlier he id hid
    exact ⟨u, by rw [he]; exact List.mem_append_left _ hu⟩
  · exact h.names_schema hid
  · exact h.names_schema (hfrom.names hid)

/-- **The definitions of an object schema** are the custom types, in the order in which they are declared. -/
theorem defs_schema {i : Info} {ps : List Node} {ds : List (String × Node)} (hs : b.schema = .object i ps ds) :
    ds.map Prod.fst = ((membersIn ms "$defs").filter (fun e => !e.2.isBool)).map Prod.fst ∧
      ∀ e ∈ ds, (.key e.1, e.2) ∈ b.customTypes := by
  obtain ⟨rs, hends, hrs⟩ := h.schema
  obtain ⟨hroot, -⟩ := hends.of_spec (Parser.script_root ms (.str eventName) false)
  obtain ⟨hkeys, hds⟩ := hroot i ps ds hs
  exact ⟨hkeys, fun e he => hrs _ (hds e he)⟩

theorem type? {id : String} {n : Node} : b.client.type? id = some n ↔ (.key id, n) ∈ b.customTypes :=
  ⟨Table.mem_of_lookup, Table.lookup_of_mem h.sound.nodup⟩

end Prepared

/-- **No reference of a build dangles.**  Whatever it hands out names custom types only; these have just the ids under
which its document declares definitions; and an object schema has them for its definitions, in the order of declaration.
-/
theorem no_dangling_reference {raw : Json} (h : (prepare raw eventName options).outcome {} = .ok b) :
    (∀ n, b.Offers n → ∀ id, n.Names id → ∃ t, b.client.type? id = some t) ∧
      ∃ ms, raw = .obj ms ∧
        (∀ id, (∃ t, (id, t) ∈ b.customTypes) ↔ ∃ k d, id = .key k ∧ Declares ms k d) ∧
        ∀ i ps ds, b.schema = .object i ps ds →
          ds.map Prod.fst = ((membersIn ms "$defs").filter (fun e => !e.2.isBool)).map Prod.fst ∧
            ∀ k n, (k, n) ∈ ds → b.client.type? k = some n := by
  obtain ⟨ms, hraw, hprep⟩ := prepared_of_prepare h
  refine ⟨fun n hn id hid => ?_, ms, hraw, hprep.types, fun i ps ds hs => ?_⟩
  · obtain ⟨t, ht⟩ := hprep.names hn hid
    exact ⟨t, hprep.type?.2 ht⟩
  · obtain ⟨hkeys, hds⟩ := hprep.defs_schema hs
    exact ⟨hkeys, fun k n hn => hprep.type?.2 (hds _ hn)⟩

/-- The custom type of the sample. -/
def sampleType : Node :=
  .primitive { name := .str "Id", description := some (.str "Custom type for Signed Up") } .string none

/-- The build of the sample. -/
def sampleBuild : Build where
  eventName := "Signed Up"
  schema := .object { name := .str "Signed Up" }
    [.primitive { name := .str "id", isRequired := true, isNullable := true, refName := some "Id" } .any none]
    [("Id", sampleType)]
  customTypes := [(.key "Id", sampleType)]
  options := {}

theorem prepare_sample : (prepare (.obj sample) "Signed Up" {}).outcome {} = .ok sampleBuild := by decide +kernel

theorem no_dangling_reference_sample :
    (prepare (.obj sample) "Signed Up" {}).outcome {} = .ok sampleBuild ∧
      (∃ t, sampleBuild.client.type? "Id" = some t) ∧ sampleBuild.client.type? "Id" = some sampleType := by
  obtain ⟨hnames, _, hraw, -, hdefs⟩ := no_dangling_reference prepare_sample
  cases hraw
  refine ⟨prepare_sample, hnames sampleBuild.schema .schema "Id" ?_, ?_⟩
  · exact .of_child (.property List.mem_cons_self) (.of_info rfl)
  · exact (hdefs _ _ _ rfl).2 "Id" sampleType List.mem_cons_self

end Build
end TrackingPlan
