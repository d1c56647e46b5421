import TrackingPlan.Proofs.Build.Cycle
import TrackingPlan.Proofs.Identical
import TrackingPlan.Proofs.Resolver.Blame
/-!
# Place — an error points at its cause

A place is written step by step from the root of the document: to a property, the items or one of them, a definition.
Whatever a parse reaches is at the end of such a walk (`Site.Reaches.endsAt`), also where it is a definition that was
resolved from elsewhere.  So the error that a preparation raises has the place of a walk to a value where just its cause
stands (`error_stands_at_place`).
-/
namespace TrackingPlan

/-! ## Walks -/

/-- One step into a document. -/
inductive Step where
  | property (key : String)
  | items
  | item (index : Nat)
  | definition (id : DefId)

namespace Step

def text : Step → String
  | .property key => "/properties/" ++ key
  | .items => "/items"
  | .item index => "/items/" ++ Numeral.nat index
  | .definition id => "/$defs/" ++ id.text

/-- **A step leads from a schema to a value in it.**  Definitions are in an object, by key, or in a list, which is
counted through. -/
inductive Leads : Step → Json → Json → Prop where
  | property {ms ps k v} (h : ms.lookup "properties" = some (.obj ps)) (hk : (k, v) ∈ ps) :
    Leads (.property k) (.obj ms) v
  | items {ms v} (h : ms.lookup "items" = some v) : Leads .items (.obj ms) v
  | item {ms vs i v} (h : ms.lookup "items" = some (.arr vs)) (hi : vs[i]? = some v) : Leads (.item i) (.obj ms) v
  | definition {ms ds k v} (h : ms.lookup "$defs" = some (.obj ds)) (hk : (k, v) ∈ ds) :
    Leads (.definition (.key k)) (.obj ms) v
  | counted {ms vs id v} (h : ms.lookup "$defs" = some (.arr vs)) (hv : Definitions.entryFor vs id = .ok v) :
    Leads (.definition id) (.obj ms) v

/-- The place at the end of steps from the root. -/
def place (steps : List Step) : Location := steps.foldl (fun p s => p ++ s.text) Pointer.root

theorem place_concat (steps : List Step) (s : Step) : place (steps ++ [s]) = place steps ++ s.text :=
  List.foldl_append ..

end Step

/-- **A walk from the root of a document to a value in it.** -/
inductive Walk (document : Json) : List Step → Json → Prop where
  | root : Walk document [] document
  | step {steps v s w} (h : Walk document steps v) (hs : s.Leads v w) : Walk document (steps ++ [s]) w

/-- A walk to the value ends at the place. -/
def EndsAt (document : Json) (p : Location) (v : Json) : Prop := ∃ steps, Step.place steps = p ∧ Walk document steps v

theorem EndsAt.root (document : Json) : EndsAt document Pointer.root document := ⟨[], rfl, .root⟩

theorem EndsAt.step {document v w : Json} {p : Location} {s : Step} (h : EndsAt document p v) (hs : s.Leads v w) :
    EndsAt document (p ++ s.text) w := by
  obtain ⟨steps, rfl, hwalk⟩ := h
  exact ⟨steps ++ [s], Step.place_concat steps s, .step hwalk hs⟩

namespace Parser

open Keywords (Members)

theorem lookup_of_mem_membersIn {ms : Members} {key k : String} {v : Json} (h : (k, v) ∈ membersIn ms key) :
    ∃ ds, ms.lookup key = some (.obj ds) ∧ (k, v) ∈ ds := by
  unfold membersIn at h
  split at h
  · next ds hds => exact ⟨ds, hds, h⟩
  · cases h

/-- A site inside a schema is a step away from it. -/
theorem Inside.endsAt {document : Json} {linked : Bool} {ms : Members} {place : Location} {t : RawType} {c : Site}
    (h : Inside linked ms place t c) (hs : EndsAt document place (.obj ms)) : EndsAt document c.place c.raw := by
  cases h with
  | property hk hv =>
    obtain ⟨ps, hps, hk⟩ := lookup_of_mem_membersIn hk
    rw [Pointer.property, String.append_assoc]
    exact hs.step (.property hps hk)
  | definition hr hk hv =>
    obtain ⟨ds, hds, hk⟩ := lookup_of_mem_membersIn hk
    rw [Pointer.definition, String.append_assoc]
    exact hs.step (.definition hds hk)
  | items h => exact hs.step (.items h)
  | item h hi =>
    rw [Pointer.item, String.append_assoc]
    exact hs.step (.item h hi)

/-- **What a parse reaches is where its place says**, as far as what it starts from is. -/
theorem Site.Reaches.endsAt {document : Json} {linked : Bool} {s t : Site} (h : s.Reaches linked t)
    (hs : EndsAt document s.place s.raw) : EndsAt document t.place t.raw := by
  induction h with
  | refl => exact hs
  | tail _ hc ih =>
    obtain ⟨ms, ts, u, hraw, -, -, hin⟩ := hc
    rw [hraw] at ih
    exact hin.endsAt ih

/-! ## Types that are not supported -/

theorem typeOf_error {v w : Json} (h : Keywords.typeOf v = .error w) : w = v ∧ ¬NamesType w := by
  have hno : ¬NamesType v := fun hn => by
    obtain ⟨t, ht⟩ := typeOf_ok_iff.2 hn
    rw [ht] at h
    cases h
  have hw : w = v := by
    cases v with
    | str s =>
      simp only [Keywords.typeOf] at h
      cases hs : RawType.ofText? s with
      | some t => rw [hs] at h; cases h
      | none => rw [hs] at h; cases h; rfl
    | _ => cases h; rfl
  exact ⟨hw, hw ▸ hno⟩

theorem mapM_typeOf_error {w : Json} : ∀ {vs : List Json}, vs.mapM Keywords.typeOf = .error w → w ∈ vs ∧ ¬NamesType w
  | [], h => by cases h
  | v :: vs, h => by
    rw [List.mapM_cons] at h
    cases hv : Keywords.typeOf v with
    | error e =>
      rw [hv] at h
      cases h
      obtain ⟨rfl, hno⟩ := typeOf_error hv
      exact ⟨List.mem_cons_self, hno⟩
    | ok t =>
      rw [hv] at h
      cases hvs : vs.mapM Keywords.typeOf with
      | ok ts => rw [hvs] at h; cases h
      | error e =>
        rw [hvs] at h
        cases h
        obtain ⟨hmem, hno⟩ := mapM_typeOf_error hvs
        exact ⟨List.mem_cons_of_mem _ hmem, hno⟩

/-- **The type that is reported** is that of the schema, or one of them, and not supported. -/
theorem types_error {ms : Members} {w : Json} (h : Keywords.types ms = .error w) :
    (ms.lookup "type" = some w ∨ ∃ vs, ms.lookup "type" = some (.arr vs) ∧ w ∈ vs) ∧ ¬NamesType w := by
  unfold Keywords.types at h
  split at h
  · cases h
  · cases h
  · next vs hvs =>
    cases hm : vs.mapM Keywords.typeOf with
    | ok ts => rw [hm] at h; cases h
    | error e =>
      rw [hm] at h
      cases h
      obtain ⟨hmem, hno⟩ := mapM_typeOf_error hm
      exact ⟨.inr ⟨vs, hvs, hmem⟩, hno⟩
  · next v _ _ hv =>
    cases ht : Keywords.typeOf v with
    | ok t => rw [ht] at h; cases h
    | error e =>
      rw [ht] at h
      cases h
      obtain ⟨rfl, hno⟩ := typeOf_error ht
      exact ⟨.inl hv, hno⟩

end Parser

namespace Build

open Keywords (Members)
open TrackingPlan.Parser (Site NamesType membersIn)

/-! ## Causes -/

/-- **A document declares a definition** by this key; a truth value declares none. -/
def Declared (document : Json) (k : String) : Prop :=
  ∃ ms d, document = .obj ms ∧ (membersIn ms "$defs").lookup k = some d ∧ d.isBool = false

/-- **A cause stands at a value of the document.** -/
inductive StandsAt (document v : Json) : Cause → Prop where
  | notSchema (h : v.isObject = false) : StandsAt document v (.notSchema v)
  | notEvent (h : v.isObject = false) : StandsAt document v (.notEvent v)
  | unsupportedType {ms t} (hv : v = .obj ms)
    (ht : ms.lookup "type" = some t ∨ ∃ ts, ms.lookup "type" = some (.arr ts) ∧ t ∈ ts) (hno : ¬NamesType t) :
    StandsAt document v (.unsupportedType t)
  | badReference {ms ref why} (hv : v = .obj ms) (href : ms.lookup "$ref" = some (.str ref))
    (hwhy : why = .notLocal ∧ Pointer.target? ref = none ∨
      ∃ k, why = .undefined (.key k) ∧ Pointer.target? ref = some k ∧ ¬Declared document k) :
    StandsAt document v (.badReference ref why)

/-- **The error has the place of a value where its cause stands.** -/
def Pinpoints (document : Json) (f : Fault) : Prop :=
  ∃ e v, f = .schema e ∧ EndsAt document e.path v ∧ StandsAt document v e.cause

variable {ms : Members} {r : Resolver} {f : Fault}

section

variable (hdefs : r.definitions = Definitions.ofJson? (ms.lookup "$defs"))

include hdefs

/-- A definition that is found is a step away from the root. -/
theorem endsAt_definition {id : DefId} {d : Json} (h : r.definitions.find? id = .ok (some d)) :
    EndsAt (.obj ms) (Pointer.ofDefinition id.text) d := by
  have hroot := EndsAt.root (.obj ms)
  have hplace : Pointer.root ++ (Step.definition id).text = Pointer.ofDefinition id.text := by
    rw [Step.text, ← String.append_assoc]
    rfl
  rw [← hplace]
  rw [hdefs] at h
  unfold Definitions.ofJson? at h
  split at h
  · next ds hds =>
    obtain ⟨k, rfl, hk⟩ := Definitions.mem_of_find?_keyed h
    exact hroot.step (.definition hds hk)
  · next v vs hvs =>
    rw [Definitions.find?] at h
    split at h
    · cases hv : Definitions.entryFor (v :: vs) id with
      | error g => rw [hv] at h; cases h
      | ok w => rw [hv] at h; cases h; exact hroot.step (.counted hvs hv)
    · cases h
  · next s _ =>
    split at h
    · cases id <;> cases h
    · cases id with
      | key k =>
        rw [Definitions.find?] at h
        split at h <;> cases h
      | _ => cases h
  · split at h
    · cases h
    · cases id <;> cases h
  · cases id <;> cases h

theorem not_declared_of_find? {k : String} (h : r.definitions.find? (.key k) = .ok none ∨
    ∃ b, r.definitions.find? (.key k) = .ok (some (.bool b))) : ¬Declared (.obj ms) k := by
  rintro ⟨ms', d, hms, hd, hb⟩
  cases hms
  have hfind : r.definitions.find? (.key k) = .ok (some d) := by
    unfold membersIn at hd
    rw [hdefs]
    split at hd
    · next ds hds => rw [hds]; exact congrArg Except.ok hd
    · cases hd
  rw [hfind] at h
  rcases h with h | ⟨b, h⟩
  · cases h
  · cases h
    cases hb

theorem pinpoints_of_bears {inside : Option DefId} {s : Site} (hs : EndsAt (.obj ms) s.place s.raw)
    (h : r.Bears inside s f) (hf : f.Local) : Pinpoints (.obj ms) f := by
  cases h with
  | own h =>
    cases h with
    | notSchema ho => exact ⟨_, s.raw, rfl, hs, .notSchema ho⟩
    | unsupported ht =>
      refine ⟨_, s.raw, rfl, hs, ?_⟩
      unfold Site.types at ht
      split at ht
      · next is hraw =>
        split at ht
        · cases ht
        · obtain ⟨hmem, hno⟩ := Parser.types_error ht
          exact .unsupportedType hraw hmem hno
      · cases ht
    | keyword _ _ _ hfaulty => exact absurd hf.isSchema hfaulty.outer.not_schema
  | @reference ref why href hun =>
    refine ⟨_, s.raw, rfl, hs, ?_⟩
    unfold Site.reference? at href
    split at href
    · next is hraw =>
      have hlookup : is.lookup "$ref" = some (.str ref) := by
        unfold Keywords.reference? at href
        split at href
        · next s hl => cases href; exact hl
        · cases href
      refine .badReference hraw hlookup ?_
      cases hun with
      | notLocal hk => exact .inl ⟨rfl, hk⟩
      | undefined hk hd => exact .inr ⟨_, rfl, hk, not_declared_of_find? hdefs hd⟩
    · cases href

/-- A definition that the root asks for by its own key is declared. -/
theorem not_undeclared_of_asks {s : Site} {k : String} {n : Node} {p : Location}
    (hs : Site.Reaches true ⟨.obj ms, false, Pointer.root⟩ s) (h : s.Asks true (.definition k s.place n)) :
    ¬r.Undeclared (.key k) p f := by
  rintro ⟨hnone, -⟩
  cases h with
  | @definition _ _ _ v _ hroot hraw _ _ hk _ =>
    -- no other site than the root itself is at the root
    rcases hs.place with rfl | hlt
    · cases hraw
      obtain ⟨ds, hds, hk⟩ := Parser.lookup_of_mem_membersIn hk
      refine Definitions.find?_of_mem_entries (?_ : .ok (.key k, v) ∈ r.definitions.entries) hnone
      rw [hdefs, hds]
      exact List.mem_map.2 ⟨_, hk, rfl⟩
    · rw [hroot.2] at hlt
      exact absurd hlt (Nat.lt_irrefl _)

end

/-- **An error points at its cause.**  An error that stops a preparation, other than a cycle of custom types, has the
place of a walk from the root of the document to a value at which this cause stands. -/
theorem error_stands_at_place {raw : Json} {eventName : String} {options : Options} {e : SchemaError}
    (h : (prepare raw eventName options).outcome {} = .error (.schema e)) (hc : ∀ ids, e.cause ≠ .cycle ids) :
    ∃ steps v, Step.place steps = e.path ∧ Walk raw steps v ∧ StandsAt raw v e.cause := by
  suffices hpin : Pinpoints raw (.schema e) by
    obtain ⟨_, v, he, ⟨steps, hplace, hwalk⟩, hstands⟩ := hpin
    cases he
    exact ⟨steps, v, hplace, hwalk, hstands⟩
  have hf : (Fault.schema e).Local := ⟨e, rfl, hc⟩
  rcases prepare_fails h with ⟨ho, he⟩ | ⟨r, hr, hcalls⟩
  · cases he
    exact ⟨_, raw, rfl, .root raw, .notEvent ho⟩
  · obtain ⟨ms, rfl, hdefs⟩ := definitions_of_ofDocument hr
    have hinner : ∀ m s, r.Innermost m s → EndsAt (.obj ms) s.place s.raw := by
      rintro m s ⟨id, d, -, hd, hs⟩
      exact hs.endsAt (endsAt_definition hdefs hd)
    rcases hcalls with hall | hparse
    · rcases Resolver.stop_tells .all r.valid_empty hall hf with ⟨s, hs, hbears⟩ | ⟨-, hown⟩
      · exact pinpoints_of_bears hdefs (hinner _ s hs) hbears hf
      · exact hown.elim
    · obtain ⟨hl, -⟩ := r.valid_performAll [.all]
      rcases Resolver.stop_tells _ hl hparse hf with ⟨s, hs, hbears⟩ | ⟨-, ⟨s, hs, hbears⟩ | ⟨s, k, n, hs, hasks, hun⟩⟩
      · exact pinpoints_of_bears hdefs (hinner _ s hs) hbears hf
      · exact pinpoints_of_bears hdefs (hs.endsAt (.root _)) hbears hf
      · exact absurd hun (not_undeclared_of_asks hdefs hs hasks)

/-- A definition with an unsupported type in the last of its items, one of which is no schema. -/
def misspelt : Members :=
  [("type", .str "object"),
    ("properties", .obj [("lines", .obj [("$ref", .str "#/$defs/Lines")])]),
    ("$defs", .obj
      [("Lines", .obj
        [("type", .str "array"),
          ("items", .arr
            [.bool true, .obj [("type", .str "string")], .obj [("type", .arr [.str "null", .str "date"])]])])])]

def misspeltError : SchemaError :=
  ⟨.unsupportedType (.str "date"), "#/$defs/Lines/items/2", some (.key "Lines")⟩

theorem prepare_misspelt : (prepare (.obj misspelt) "Ordered" {}).outcome {} = .error (.schema misspeltError) := by
  decide +kernel

theorem misspelt_error_stands_at_place :
    (prepare (.obj misspelt) "Ordered" {}).outcome {} = .error (.schema misspeltError) ∧
      (∀ ids, misspeltError.cause ≠ .cycle ids) ∧
      ∃ steps v, Step.place steps = misspeltError.path ∧ Walk (.obj misspelt) steps v ∧
        StandsAt (.obj misspelt) v misspeltError.cause :=
  have hcause : ∀ ids, misspeltError.cause ≠ .cycle ids := fun _ h => by cases h
  ⟨prepare_misspelt, hcause, error_stands_at_place prepare_misspelt hcause⟩

end Build
end TrackingPlan
