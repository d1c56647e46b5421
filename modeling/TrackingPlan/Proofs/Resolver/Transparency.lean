import TrackingPlan.Proofs.Identical
import TrackingPlan.Proofs.Parser.Elsewhere
import TrackingPlan.Proofs.Parser.Keeps
import TrackingPlan.Proofs.Parser.Shape
import TrackingPlan.Proofs.Resolver.Calls
import TrackingPlan.Proofs.Resolver.Value
/-!
# Transparency — a resolver does not show in what is parsed

A resolver only makes sure that references resolve: apart from the root, a parse with it ends as the plain one does, and
fails beyond that only where a reference does not resolve.  So a custom type is its plainly parsed definition, with a
description from the template where it has none of its own (`parse_transparent`).
-/
namespace TrackingPlan

open Script (Request)

/-! ## Plain parses -/

namespace Parser

/-- **References that are only recorded** all resolve, as if they had an answer each. -/
theorem outcome_run_recording {α : Type} (s : Script α) : ∀ l : Ledger, (s.run .recording).outcome l =
    s.answer (fun _ _ => .ok ()) (fun _ _ => .ok .anything) := by
  induction s with
  | done a | fail f => exact fun _ => rfl
  | note x next ih => exact fun l => ih ((Parsing.record x).after l)
  | reference ref place next ih => exact fun l => ih l
  | definition key place next ih => exact fun l => ih _ l

/-- **A plain parse is the script**, where every reference has an answer. -/
theorem outcome_parse_plain (raw name : Json) (isRequired : Bool) (path : Location) (l : Ledger) :
    (parse none raw name isRequired path).outcome l =
      (script false raw name isRequired path).answer (fun _ _ => .ok ()) (fun _ _ => .ok .anything) :=
  outcome_run_recording _ l

theorem not_asked_definition {s : Site} {key : String} {place : Location} {n : Node} :
    ¬s.Asked false (.definition key place n) := by
  rintro ⟨t, -, hasks⟩
  cases hasks with
  | definition hl => cases hl.1

/-- **A plain parse ends with a node when its script does.** -/
theorem outcome_parse_none {raw name : Json} {isRequired : Bool} {path : Location} {l : Ledger} {n : Node} :
    (parse none raw name isRequired path).outcome l = .ok n ↔
      ∃ rs, (script false raw name isRequired path).Ends rs n := by
  rw [outcome_parse_plain, Script.answer_eq_ok_iff]
  refine exists_congr fun rs => and_iff_left_of_imp fun hrs q hq => ?_
  cases q with
  | reference => rfl
  | definition key place m => exact absurd ((hrs.of_spec (script_keeps ..)).2 _ hq) not_asked_definition

/-- A parse does not tell a name from its title, where it goes by that anyway. -/
theorem script_named {linked : Bool} {ms : Keywords.Members} {name name' : Json} (isRequired : Bool) (path : Location)
    (h : Json.firstGiven [name, (Json.given? (ms.lookup "title")).getD .null] =
      Json.firstGiven [name', (Json.given? (ms.lookup "title")).getD .null]) :
    script linked (.obj ms) name isRequired path = script linked (.obj ms) name' isRequired path := by
  unfold script parsePart
  simp only [view_raw, Keywords.describe, h]

end Parser

namespace Resolver

open TrackingPlan.Parser (Site)

variable {r : Resolver} {inner : Valuation} {inProgress : List DefId}

/-! ## Where a reference stands does not matter -/

theorem valueWith_place {id : DefId} {p q : Location} {n : Node} (h : r.valueWith inner inProgress id p = .ok n) :
    r.valueWith inner inProgress id q = .ok n := by
  unfold valueWith at h ⊢
  cases hin : inProgress.any (·.same id) with
  | true => rw [hin] at h; cases h
  | false =>
    rw [hin] at h
    cases hd : r.definitions.find? id with
    | error f => rw [hd] at h; cases h
    | ok d =>
      rw [hd] at h
      cases d with
      | none => cases h
      | some d => exact h

theorem valueWithin_place {depth : Nat} {id : DefId} {p q : Location} {n : Node}
    (h : r.valueWithin depth inProgress id p = .ok n) : r.valueWithin depth inProgress id q = .ok n := by
  cases depth with
  | zero => exact valueWith_place h
  | succ depth => exact valueWith_place h

theorem referenceValue_place (hinner : ∀ id p q n, inner inProgress id p = .ok n → inner inProgress id q = .ok n)
    {ref : String} {p q : Location} {n : Node} (h : r.referenceValue inner inProgress ref p = .ok n) :
    r.referenceValue inner inProgress ref q = .ok n := by
  unfold referenceValue at h ⊢
  cases ht : Pointer.target? ref with
  | none => rw [ht] at h; cases h
  | some k =>
    rw [ht] at h
    simp only at h ⊢
    cases hd : r.definitions.find? (.key k) with
    | error f => rw [hd] at h; cases h
    | ok d =>
      rw [hd] at h
      cases d with
      | none => cases h
      | some d =>
        cases d with
        | bool b => cases h
        | _ => exact hinner _ _ _ _ h

/-! ## Parses with a resolver -/

/-- The references among the requests of a plain parse are just those of the sites that it reaches. -/
theorem reference_mem_iff {raw name : Json} {isRequired : Bool} {path : Location} {rs : List Request} {n : Node}
    (h : (Parser.script false raw name isRequired path).Ends rs n) (ref : String) (place : Location) :
    .reference ref place ∈ rs ↔
      ∃ s, (⟨raw, false, path⟩ : Site).Reaches false s ∧ s.reference? = some ref ∧ s.place = place := by
  obtain ⟨⟨hset, -⟩, hasked⟩ := h.of_spec (Parser.script_keeps ..)
  constructor
  · intro hq
    obtain ⟨s, hs, hasks⟩ := hasked _ hq
    cases hasks with
    | reference href => exact ⟨s, hs, href, rfl⟩
  · rintro ⟨s, hs, href, rfl⟩
    exact (hset s hs).2 ref href

/-- **Apart from the root, a resolver only adds that references resolve.** -/
theorem outcome_parse_iff {l : Ledger} (hl : r.Valid l) (hnone : l.inProgress = []) {raw name : Json}
    {isRequired : Bool} {path : Location} (hpath : path ≠ Pointer.root) {n : Node} :
    (r.parse raw name isRequired path).outcome l = .ok n ↔
      (Parser.parse none raw name isRequired path).outcome {} = .ok n ∧
        ∀ s ref, (⟨raw, false, path⟩ : Site).Reaches false s → s.reference? = some ref →
          ∃ t, (r.resolveReference ref s.place).outcome l = .ok t := by
  have hlinked : Parser.Apart true path := fun h => hpath h.2
  have hplain := Parser.apart_plain path
  have hplace : ∀ {ref p q t}, r.referenceValue (r.valueWithin r.definitions.count) [] ref p = .ok t →
      r.referenceValue (r.valueWithin r.definitions.count) [] ref q = .ok t :=
    referenceValue_place (fun _ _ _ _ => valueWithin_place)
  rw [outcome_parse hl hnone, Parser.outcome_parse_none]
  simp only [outcome_resolveReference hl hnone]
  constructor
  · intro h
    obtain ⟨rs, hends, hrs⟩ := answerWith_eq_ok_iff.1 h
    -- the plain parse asks for the same references, at other places perhaps
    obtain ⟨rs', _, hends', rfl, hsame⟩ := (Parser.script_alike raw name isRequired hlinked hplain).ends hends
    refine ⟨⟨rs', hends'⟩, fun s ref hs href => ?_⟩
    have hmem := List.mem_map_of_mem (f := Request.unplaced)
      ((reference_mem_iff hends' ref s.place).2 ⟨s, hs, href, rfl⟩)
    rw [hsame] at hmem
    obtain ⟨q, hq, he⟩ := List.mem_map.1 hmem
    cases q with
    | reference ref' place =>
      cases he
      obtain ⟨t, ht⟩ := hrs _ hq
      exact ⟨t, hplace ht⟩
    | definition => cases he
  · rintro ⟨⟨rs, hends⟩, hresolve⟩
    obtain ⟨rs', _, hends', rfl, hsame⟩ := (Parser.script_alike raw name isRequired hplain hlinked).ends hends
    refine answerWith_eq_ok_iff.2 ⟨rs', hends', fun q hq => ?_⟩
    have hmem := List.mem_map_of_mem (f := Request.unplaced) hq
    rw [hsame] at hmem
    obtain ⟨q', hq', he⟩ := List.mem_map.1 hmem
    cases q' with
    | reference ref place =>
      cases q with
      | reference ref' place' =>
        cases he
        obtain ⟨s, hs, href, -⟩ := (reference_mem_iff hends _ place).1 hq'
        obtain ⟨t, ht⟩ := hresolve s _ hs href
        exact ⟨t, hplace ht⟩
      | definition => cases he
    | definition key place m =>
      exact absurd ((hends.of_spec (Parser.script_keeps ..)).2 _ hq') Parser.not_asked_definition

/-! ## Custom types -/

theorem apart_ofDefinition {linked : Bool} (k : String) : Parser.Apart linked (Pointer.ofDefinition k) := by
  have h := @Parser.apart_append linked "" "#/$defs/" k (by decide)
  rwa [String.empty_append] at h

/-- A definition goes by its title, where it has one, whether it is parsed under that or under no name at all. -/
theorem firstGiven_nameFor (id : DefId) (ms : Keywords.Members) :
    Json.firstGiven [(Json.given? (ms.lookup "title")).getD id.value, (Json.given? (ms.lookup "title")).getD .null] =
      Json.firstGiven [nameFor id (.obj ms), (Json.given? (ms.lookup "title")).getD .null] := by
  cases htitle : Json.given? (ms.lookup "title") with
  | none => simp only [nameFor, htitle]; rfl
  | some t =>
    obtain ⟨-, hgiven⟩ := Option.filter_eq_some_iff.1 htitle
    have hnull : Json.null.isGiven = false := rfl
    simp [nameFor, htitle, Json.firstGiven, hgiven, hnull]

/-- **A custom type is its definition as it is parsed plainly**, with a description from the template where it has none
of its own. -/
theorem Registered.plain {before : Registry} {id : DefId} {node : Node} (h : r.Registered before id node) :
    ∃ ms plain, r.definitions.find? id = .ok (some (.obj ms)) ∧
      (∀ path, (Parser.parse none (.obj ms) ((Json.given? (ms.lookup "title")).getD id.value) false path).outcome {} =
        .ok plain) ∧
      match Json.given? (ms.lookup "description") with
      | some _ => node = plain
      | none => ∃ text, r.describe = .ok text ∧
          node = plain.withInfo (fun i => { i with description := some text }) := by
  obtain ⟨d, rs, plain, hd, hends, -, hnode⟩ := h
  have hset := ((hends.of_spec (Parser.script_keeps ..)).1.1 _ .refl).1
  cases d with
  | obj ms =>
    refine ⟨ms, plain, hd, fun path => ?_, ?_⟩
    · have hplain := Parser.apart_plain path
      obtain ⟨rs', _, hends', rfl, -⟩ :=
        (Parser.script_alike (.obj ms) (nameFor id (.obj ms)) false (apart_ofDefinition id.text) hplain).ends hends
      refine Parser.outcome_parse_none.2 ⟨rs', ?_⟩
      rw [Parser.script_named false path (firstGiven_nameFor id ms)]
      exact hends'
    · obtain ⟨hdesc, -⟩ := hends.of_spec (Parser.script_description ms _ _ _)
      rcases withDescription_eq_ok hnode with ⟨hsome, rfl⟩ | ⟨hnone, htext⟩
      · rw [hdesc] at hsome
        obtain ⟨v, hv⟩ := Option.isSome_iff_exists.1 hsome
        rw [hv]
      · rw [← hdesc, hnone]
        exact htext
  | _ => exact absurd (.notSchema rfl) (hset _)

/-- **A resolver does not show in what is parsed.**  After every history, a parse with it apart from the root ends with
just the node of the plain parse, and does so just when that ends and every reference on the way resolves.  Each custom
type is its definition, parsed plainly under its title or its id, and only a missing description is the template's. -/
theorem parse_transparent (r : Resolver) (calls : List Call) :
    (∀ raw name isRequired path, path ≠ Pointer.root → ∀ n,
      (r.parse raw name isRequired path).outcome (r.performAll calls) = .ok n ↔
        (Parser.parse none raw name isRequired path).outcome {} = .ok n ∧
          ∀ s ref, (⟨raw, false, path⟩ : Site).Reaches false s → s.reference? = some ref →
            ∃ t, (r.resolveReference ref s.place).outcome (r.performAll calls) = .ok t) ∧
    ∀ id node, (id, node) ∈ (r.performAll calls).registry →
      ∃ ms plain, r.definitions.find? id = .ok (some (.obj ms)) ∧
        (∀ path, (Parser.parse none (.obj ms) ((Json.given? (ms.lookup "title")).getD id.value) false path).outcome {} =
          .ok plain) ∧
        match Json.given? (ms.lookup "description") with
        | some _ => node = plain
        | none =>
          ∃ text, r.describe = .ok text ∧ node = plain.withInfo (fun i => { i with description := some text }) := by
  obtain ⟨hvalid, hnone⟩ := r.valid_performAll calls
  refine ⟨fun raw name isRequired path hpath n => outcome_parse_iff hvalid hnone hpath, fun id node hmem => ?_⟩
  obtain ⟨before, after, hreg⟩ := List.append_of_mem hmem
  obtain ⟨-, -, hnode⟩ := hvalid.sound.at_entry hreg
  exact hnode.plain

/-- A resolver whose second definition refers to the first. -/
def chained : Resolver where
  definitions := .keyed [("Id", .obj [("type", .str "string")]),
    ("Ids", .obj [("type", .str "array"), ("items", .obj [("$ref", .str "#/$defs/Id")])])]

def chainedId : Node := .primitive { name := .str "Id", description := some (.str "Custom type for ") } .string none

def chainedReference : Json := .obj [("$ref", .str "#/$defs/Id")]

/-- The node of a property that refers to the first definition. -/
def chainedProperty : Node :=
  .primitive { name := .str "id", isRequired := true, isNullable := true, refName := some "Id" } .any none

theorem chained_registers : (.key "Id", chainedId) ∈ (chained.performAll [.all]).registry := by
  have h : (chained.performAll [.all]).registry.head? = some (.key "Id", chainedId) := by decide +kernel
  exact List.mem_of_head? h

theorem chained_parses :
    (chained.parse chainedReference (.str "id") true "#/properties/id").outcome (chained.performAll [.all]) =
      .ok chainedProperty := by
  decide +kernel

/-- The resolver does not show in a property that refers to a definition, nor in that definition. -/
theorem parse_transparent_chained :
    "#/properties/id" ≠ Pointer.root ∧
      (Parser.parse none chainedReference (.str "id") true "#/properties/id").outcome {} = .ok chainedProperty ∧
      (.key "Id", chainedId) ∈ (chained.performAll [.all]).registry ∧
      ∃ ms plain, chained.definitions.find? (.key "Id") = .ok (some (.obj ms)) ∧
        (Parser.parse none (.obj ms) (.str "Id") false "#").outcome {} = .ok plain ∧
        chainedId = plain.withInfo (fun i => { i with description := some (.str "Custom type for ") }) := by
  obtain ⟨hparse, hregistry⟩ := parse_transparent chained [.all]
  have hroot : "#/properties/id" ≠ Pointer.root := by decide
  refine ⟨hroot, ((hparse _ _ _ _ hroot _).1 chained_parses).1, chained_registers, ?_⟩
  obtain ⟨ms, plain, hd, hplain, hnode⟩ := hregistry _ _ chained_registers
  cases hd
  obtain ⟨text, htext, hnode⟩ := hnode
  obtain rfl : text = .str "Custom type for " := by
    have hdescribe : chained.describe = .ok (.str "Custom type for ") := by decide +kernel
    exact (Except.ok.inj (hdescribe.symm.trans htext)).symm
  exact ⟨_, plain, rfl, hplain _, hnode⟩

end Resolver
end TrackingPlan
