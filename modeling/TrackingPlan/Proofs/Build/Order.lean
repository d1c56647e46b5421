import Mathlib.Data.List.Nodup
import TrackingPlan.Proofs.Build.Contents
import TrackingPlan.Proofs.Parser.Order
/-!
# Order — the order of definitions does not matter

Resolvers that find the same definitions, in whatever order these are declared, have the same values
(`valueWithin_eq`): a value knows of no registry, so nothing of the order in which definitions come to be resolved is in
it.  Hence a document whose definitions stand in another order prepares exactly when the first one does, and then to a
build with the same custom types and the same schema (`prepare_rearranged`).
-/
namespace TrackingPlan

/-! ## Tables in another order -/

theorem Table.lookup_eq_of_perm {κ α : Type} [DecidableEq κ] {t u : List (κ × α)} (ht : (t.map Prod.fst).Nodup)
    (h : t.Perm u) (k : κ) : t.lookup k = u.lookup k := by
  have hu : (u.map Prod.fst).Nodup := (h.map Prod.fst).nodup_iff.1 ht
  refine Option.ext fun v => ?_
  constructor
  · exact fun hv => Table.lookup_of_mem hu (h.mem_iff.1 (Table.mem_of_lookup hv))
  · exact fun hv => Table.lookup_of_mem ht (h.mem_iff.2 (Table.mem_of_lookup hv))

namespace Resolver

open Script (Request)

variable {r r' : Resolver} {α : Type}

/-- **Two resolvers that find the same definitions**, and describe them alike. -/
structure FindsSame (r r' : Resolver) : Prop where
  find? : ∀ id, r.definitions.find? id = r'.definitions.find? id
  count : r.definitions.count = r'.definitions.count
  entries : ∀ e, e ∈ r.definitions.entries ↔ e ∈ r'.definitions.entries
  describe : r.describe = r'.describe

section

variable (h : r.FindsSame r')

include h

theorem referenceValue_eq (inner : Valuation) : r.referenceValue inner = r'.referenceValue inner := by
  funext ids ref path
  unfold referenceValue
  simp only [h.find?]

theorem answerWith_eq (inner : Valuation) (ids : List DefId) (s : Script α) :
    r.answerWith inner ids s = r'.answerWith inner ids s := by
  simp only [answerWith, referenceValue_eq h]

theorem valueWith_eq (inner : Valuation) : r.valueWith inner = r'.valueWith inner := by
  funext ids id path
  have hdesc : r.withDescription = r'.withDescription := by
    funext n
    rw [withDescription, withDescription, h.describe]
  simp only [valueWith, h.find?, answerWith_eq h, hdesc]

/-- **The same definitions have the same values.** -/
theorem valueWithin_eq : ∀ depth, r.valueWithin depth = r'.valueWithin depth
  | 0 => valueWith_eq h _
  | depth + 1 => by rw [valueWithin, valueWithin, valueWithin_eq depth, valueWith_eq h]

theorem value_eq : r.value = r'.value := by rw [value, value, h.count, valueWithin_eq h]

/-- **All definitions are resolved alike**, to the same custom types. -/
theorem resolveAll_alongside : Alongside List.Perm (r.resolveAll.outcome {}) (r'.resolveAll.outcome {}) := by
  refine .of_succeeds ?_ fun reg reg' hreg hreg' => ?_
  · rw [resolveAll_succeeds_iff r.valid_empty rfl, resolveAll_succeeds_iff r'.valid_empty rfl]
    refine forall_congr' fun e => ?_
    simp only [h.entries, HasValue, value_eq h]
  · have hkeeps := resolveAll_keeps r.valid_empty
    have hkeeps' := resolveAll_keeps r'.valid_empty
    obtain ⟨rfl, -⟩ := hkeeps.result reg hreg
    obtain ⟨rfl, -⟩ := hkeeps'.result reg' hreg'
    refine (List.perm_ext_iff_of_nodup (.of_map _ hkeeps.step.valid.sound.nodup)
      (.of_map _ hkeeps'.step.valid.sound.nodup)).2 fun e => ?_
    rw [mem_registry_of_resolveAll r.valid_empty hreg, mem_registry_of_resolveAll r'.valid_empty hreg', value_eq h]
    simp only [h.entries]

end

end Resolver

namespace Build

open Keywords (Members)

variable {ms ms' : Members}

theorem findsSame_of_rearranged (h : Rearranged ms ms') (eventName : String) (options : Options) :
    (documentResolver ms eventName options).FindsSame (documentResolver ms' eventName options) := by
  obtain ⟨ds, ds', hds, hds', hperm, hkeys⟩ := h.definitions
  have hdefs : (documentResolver ms eventName options).definitions = .keyed ds := by
    rw [documentResolver, hds]; rfl
  have hdefs' : (documentResolver ms' eventName options).definitions = .keyed ds' := by
    rw [documentResolver, hds']; rfl
  refine ⟨fun id => ?_, ?_, fun e => ?_, rfl⟩
  · rw [hdefs, hdefs']
    cases id with
    | key k => exact congrArg Except.ok (Table.lookup_eq_of_perm hkeys hperm k)
    | _ => rfl
  · rw [hdefs, hdefs']
    exact hperm.length_eq
  · rw [hdefs, hdefs']
    exact (hperm.map _).mem_iff

/-- **The same build**, but for the order of custom types and definitions. -/
structure Reordered (b b' : Build) : Prop where
  types : b.customTypes.Perm b'.customTypes
  schema : b.schema.Reordered b'.schema

theorem prepare_alongside (h : Rearranged ms ms') (eventName : String) (options : Options) :
    Alongside Reordered ((prepare (.obj ms) eventName options).outcome {})
      ((prepare (.obj ms') eventName options).outcome {}) := by
  have hsame := findsSame_of_rearranged h eventName options
  show Alongside Reordered ((prepareObject (.obj ms) eventName options).outcome {})
    ((prepareObject (.obj ms') eventName options).outcome {})
  rw [outcome_prepareObject (r := documentResolver ms eventName options) rfl,
    outcome_prepareObject (r := documentResolver ms' eventName options) rfl]
  refine (Resolver.resolveAll_alongside hsame).bind fun types types' htypes => ?_
  have hstep := (Resolver.resolveAll_keeps (documentResolver ms eventName options).valid_empty).step
  have hstep' := (Resolver.resolveAll_keeps (documentResolver ms' eventName options).valid_empty).step
  rw [Resolver.outcome_parse hstep.valid hstep.inProgress, Resolver.outcome_parse hstep'.valid hstep'.inProgress,
    Resolver.answerWith_eq hsame, Resolver.valueWithin_eq hsame, hsame.count]
  exact (Parser.script_rearranged h (.str eventName) false).map fun n n' hn => ⟨htypes, hn⟩

/-- **The order of definitions does not matter.**  A document whose definitions stand in another order prepares exactly
when the first one does; then both builds have the same custom type under every id, and the same schema but for that
order. -/
theorem prepare_rearranged (h : Rearranged ms ms') (eventName : String) (options : Options) :
    ((∃ b, (prepare (.obj ms) eventName options).outcome {} = .ok b) ↔
      ∃ b', (prepare (.obj ms') eventName options).outcome {} = .ok b') ∧
    ∀ b b', (prepare (.obj ms) eventName options).outcome {} = .ok b →
      (prepare (.obj ms') eventName options).outcome {} = .ok b' →
        (∀ id, b.customTypes.lookup id = b'.customTypes.lookup id) ∧ b.schema.Reordered b'.schema := by
  have halong := prepare_alongside h eventName options
  refine ⟨halong.succeeds_iff, fun b b' hb hb' => ?_⟩
  obtain ⟨htypes, hschema⟩ := halong.related hb hb'
  obtain ⟨_, -, hprepared⟩ := prepared_of_prepare hb
  exact ⟨Table.lookup_eq_of_perm hprepared.sound.nodup htypes, hschema⟩

/-- Definitions that come together in a last one, two of them pointing forward. -/
def diamond : Members :=
  [("Order", .obj
      [("type", .str "object"),
        ("properties", .obj
          [("buyer", .obj [("$ref", .str "#/$defs/Buyer")]), ("seller", .obj [("$ref", .str "#/$defs/Seller")])])]),
    ("Buyer", .obj [("type", .str "array"), ("items", .obj [("$ref", .str "#/$defs/Id")])]),
    ("Seller", .obj [("$ref", .str "#/$defs/Id")]),
    ("Id", .obj [("type", .str "string")])]

def ordered : Members :=
  [("type", .str "object"), ("properties", .obj [("order", .obj [("$ref", .str "#/$defs/Order")])]),
    ("$defs", .obj diamond)]

theorem rearranged_ordered : Rearranged ordered (Table.set "$defs" (.obj diamond.reverse) ordered) :=
  rearranged_set rfl diamond.reverse_perm.symm (by decide)

theorem prepare_ordered_succeeds : ((prepare (.obj ordered) "Ordered" {}).outcome {}).isOk = true := by decide +kernel

theorem diamond_in_either_order : Rearranged ordered (Table.set "$defs" (.obj diamond.reverse) ordered) ∧
    ∃ b b', (prepare (.obj ordered) "Ordered" {}).outcome {} = .ok b ∧
      (prepare (.obj (Table.set "$defs" (.obj diamond.reverse) ordered)) "Ordered" {}).outcome {} = .ok b' ∧
      (∀ id, b.customTypes.lookup id = b'.customTypes.lookup id) ∧ b.schema.Reordered b'.schema := by
  obtain ⟨b, hb⟩ : ∃ b, (prepare (.obj ordered) "Ordered" {}).outcome {} = .ok b := by
    have hok := prepare_ordered_succeeds
    cases h : (prepare (.obj ordered) "Ordered" {}).outcome {} with
    | ok b => exact ⟨b, rfl⟩
    | error f => rw [h] at hok; cases hok
  obtain ⟨hiff, hsame⟩ := prepare_rearranged rearranged_ordered "Ordered" {}
  obtain ⟨b', hb'⟩ := hiff.1 ⟨b, hb⟩
  exact ⟨rearranged_ordered, b, b', hb, hb', hsame b b' hb hb'⟩

end Build
end TrackingPlan
