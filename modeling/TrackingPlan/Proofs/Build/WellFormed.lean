import TrackingPlan.Proofs.Build.Parts
import TrackingPlan.Proofs.Parser.Faultless
import TrackingPlan.Proofs.Resolver.Independence
/-!
# WellFormed — what a document is like that a build was prepared of

A subschema of a document is `Active` when the parse of the event or of one of its definitions reaches it.  A document
is `WellFormed` when its active subschemas are of supported types, their references name definitions, and no
definition refers to itself by way of others.  That a prepared document is well formed (`wellFormed_of_prepared`)
shows from its registry, where what a definition refers to is registered before it.
-/
namespace TrackingPlan
namespace Build

open Keywords (Members)
open TrackingPlan.Parser (Site membersIn TypesSupported Tidy)
open Script (Request)

/-- **The definitions of a document**; a truth value declares none. -/
def Declares (ms : Members) (k : String) (d : Json) : Prop := (k, d) ∈ membersIn ms "$defs" ∧ d.isBool = false

def eventSite (ms : Members) : Site := ⟨.obj ms, false, Pointer.root⟩
def definitionSite (k : String) (d : Json) : Site := ⟨d, false, Pointer.ofDefinition k⟩

/-- **A subschema that is parsed**, inside the event or inside one of the definitions. -/
inductive Active (ms : Members) : Site → Prop where
  | event {s} (h : (eventSite ms).Reaches true s) : Active ms s
  | definition {k d s} (hd : Declares ms k d) (h : (definitionSite k d).Reaches true s) : Active ms s

/-- A subschema of the first definition has a reference that names the second. -/
def Refers (ms : Members) (a b : String) : Prop :=
  ∃ d s ref, Declares ms a d ∧ (definitionSite a d).Reaches true s ∧ s.reference? = some ref ∧
    Pointer.target? ref = some b

/-- **The documents that a build can be prepared of.** -/
structure WellFormed (ms : Members) : Prop where
  types : ∀ s, Active ms s → ∃ is, s.raw = .obj is ∧ TypesSupported is
  references : ∀ s ref, Active ms s → s.reference? = some ref → ∃ k d, Pointer.target? ref = some k ∧ Declares ms k d
  acyclic : ∀ k, ¬Relation.TransGen (Refers ms) k k

/-- What is taken for granted of a document: its active subschemas are tidy and its definitions have keys of their
own. -/
structure TidyDocument (ms : Members) : Prop where
  tidy : ∀ s is, Active ms s → s.raw = .obj is → Tidy is
  keys : ((membersIn ms "$defs").map Prod.fst).Nodup

/-- The resolver of a document. -/
def resolverOf (ms : Members) (eventName : String) (options : Options) : Resolver where
  definitions := .keyed (membersIn ms "$defs")
  source := eventName
  template := options.description

variable {ms : Members} {eventName : String} {options : Options}

/-! ## The document's resolver -/

theorem ofDocument_eq (h : Tidy ms) :
    Resolver.ofDocument (.obj ms) eventName options.description = .ok (resolverOf ms eventName options) := by
  have hdefs : Definitions.ofJson? (ms.lookup "$defs") = .keyed (membersIn ms "$defs") := by
    unfold membersIn
    cases hl : ms.lookup "$defs" with
    | none => rfl
    | some v =>
      have ho := h.members _ _ (.inr rfl) hl
      cases v with
      | obj ds => rfl
      | _ => cases ho
  show (Except.ok (Definitions.ofJson? (ms.lookup "$defs"))).map _ = _
  rw [hdefs]
  rfl

theorem find?_of_declares (h : TidyDocument ms) {k : String} {d : Json} (hd : Declares ms k d) :
    (resolverOf ms eventName options).definitions.find? (.key k) = .ok (some d) := by
  show Except.ok ((membersIn ms "$defs").lookup k) = _
  rw [Table.lookup_of_mem h.keys hd.1]

theorem declares_of_find? {k : String} {d : Json}
    (hd : (resolverOf ms eventName options).definitions.find? (.key k) = .ok (some d)) (hb : d.isBool = false) :
    Declares ms k d :=
  ⟨Table.mem_of_lookup (Except.ok.inj hd), hb⟩

theorem prepare_succeeds_iff_parts (h : Tidy ms) :
    (∃ b, (prepare (.obj ms) eventName options).outcome {} = .ok b) ↔
      (∃ reg, (resolverOf ms eventName options).resolveAll.outcome {} = .ok reg) ∧
        ∃ n, ((resolverOf ms eventName options).parse (.obj ms) (.str eventName) false Pointer.root).outcome
          ((resolverOf ms eventName options).resolveAll.after {}) = .ok n := by
  change (∃ b, (prepareObject (.obj ms) eventName options).outcome {} = .ok b) ↔ _
  rw [outcome_prepareObject (ofDocument_eq h)]
  generalize resolverOf ms eventName options = r
  cases r.resolveAll.outcome {} with
  | error f => exact ⟨fun ⟨_, h⟩ => (by cases h), fun ⟨⟨_, h⟩, _⟩ => (by cases h)⟩
  | ok reg =>
    cases (r.parse (.obj ms) (.str eventName) false Pointer.root).outcome (r.resolveAll.after {}) with
    | error f => exact ⟨fun ⟨_, h⟩ => (by cases h), fun ⟨_, _, h⟩ => (by cases h)⟩
    | ok n => exact ⟨fun _ => ⟨⟨reg, rfl⟩, n, rfl⟩, fun _ => ⟨_, rfl⟩⟩

/-! ## A prepared document is well formed -/

section

variable (h : TidyDocument ms)

include h

theorem settled_of_registered {before : Registry} {k : String} {d : Json} {node : Node}
    (hn : (resolverOf ms eventName options).Registered before (.key k) node) (hd : Declares ms k d) :
    ∃ rs, (definitionSite k d).Settled true rs ∧ ∀ q ∈ rs, (resolverOf ms eventName options).AnsweredBy before q := by
  obtain ⟨d', rs, n, hd', hends, hrs, -⟩ := hn
  rw [find?_of_declares h hd] at hd'
  cases hd'
  exact ⟨rs, (hends.of_spec (Parser.script_keeps ..)).1.1, hrs⟩

theorem refers_earlier {reg before after : Registry} (hs : (resolverOf ms eventName options).Sound reg) {a b : String}
    {node : Node} (he : reg = before ++ (.key a, node) :: after) (hab : Refers ms a b) :
    ∃ n, (DefId.key b, n) ∈ before := by
  obtain ⟨d, s, ref, hd, hreach, href, htarget⟩ := hab
  obtain ⟨rs, hset, hrs⟩ := settled_of_registered h (hs.at_entry he).2.2 hd
  obtain ⟨k, -, n, hk, -, -, hn⟩ := hrs _ ((hset s hreach).2 ref href)
  rw [hk] at htarget
  cases htarget
  exact ⟨n, hn⟩

theorem transGen_refers_earlier {reg : Registry} (hs : (resolverOf ms eventName options).Sound reg) {a b : String}
    (hab : Relation.TransGen (Refers ms) a b) : ∀ {before after : Registry} {node : Node},
    reg = before ++ (.key a, node) :: after → ∃ n, (DefId.key b, n) ∈ before := by
  induction hab using Relation.TransGen.head_induction_on with
  | single hab => exact fun he => refers_earlier h hs he hab
  | head hac _ ih =>
    intro before after node he
    obtain ⟨n, hn⟩ := refers_earlier h hs he hac
    obtain ⟨before', after', rfl⟩ := List.append_of_mem hn
    obtain ⟨m, hm⟩ := ih (he.trans (List.append_assoc ..))
    exact ⟨m, List.mem_append_left _ hm⟩

theorem acyclic_of_sound {reg : Registry} (hs : (resolverOf ms eventName options).Sound reg)
    (hall : ∀ k d, Declares ms k d → ∃ n, (DefId.key k, n) ∈ reg) (k : String) :
    ¬Relation.TransGen (Refers ms) k k := by
  intro hkk
  obtain ⟨c, hkc, -⟩ := Relation.TransGen.head'_iff.1 hkk
  obtain ⟨d, -, -, hd, -⟩ := hkc
  obtain ⟨n, hn⟩ := hall k d hd
  obtain ⟨before, after, rfl⟩ := List.append_of_mem hn
  obtain ⟨m, hm⟩ := transGen_refers_earlier h hs hkk rfl
  have hne := (hs.at_entry rfl).2.1 _ hm
  rw [DefId.same_self] at hne
  cases hne

theorem types_and_references {s t : Site} {rs : List Request} {reg : Registry} (hset : s.Settled true rs)
    (hrs : ∀ q ∈ rs, (resolverOf ms eventName options).AnsweredBy reg q) (hs : s.untyped = false)
    (ht : s.Reaches true t) (hact : Active ms t) :
    (∃ is, t.raw = .obj is ∧ TypesSupported is) ∧
      ∀ ref, t.reference? = some ref → ∃ k d, Pointer.target? ref = some k ∧ Declares ms k d := by
  obtain ⟨hfaultless, hrefs⟩ := hset t ht
  refine ⟨(Site.faultless_iff (fun is => h.tidy t is hact) (ht.untyped hs)).1 hfaultless, fun ref href => ?_⟩
  obtain ⟨k, d, -, hk, hd, hb, -⟩ := hrs _ (hrefs ref href)
  exact ⟨k, d, hk, declares_of_find? hd hb⟩

theorem wellFormed_of_prepared (hprep : ∃ b, (prepare (.obj ms) eventName options).outcome {} = .ok b) :
    WellFormed ms := by
  obtain ⟨⟨reg, hreg⟩, n, hn⟩ := (prepare_succeeds_iff_parts (h.tidy _ ms (.event .refl) rfl)).1 hprep
  have hkeeps := Resolver.resolveAll_keeps (resolverOf ms eventName options).valid_empty
  have hvalid := hkeeps.step.valid
  obtain ⟨-, hentries⟩ := hkeeps.result reg hreg
  have hall : ∀ k d, Declares ms k d →
      ∃ n, (DefId.key k, n) ∈ ((resolverOf ms eventName options).resolveAll.after {}).registry := fun k d hd => by
    obtain ⟨id, d', he, hin⟩ := hentries (.ok (.key k, d)) (List.mem_map.2 ⟨_, hd.1, rfl⟩)
    cases he
    obtain ⟨i, m, hi, hm⟩ := hin hd.2
    exact ⟨m, DefId.same_key hi ▸ hm⟩
  obtain ⟨rs, hends, hrs⟩ := (Resolver.parse_keeps _ _ _ _ hvalid).result n hn
  have hevent : (eventSite ms).Settled true rs := (hends.of_spec (Parser.script_keeps ..)).1.1
  have hactive : ∀ s, Active ms s → (∃ is, s.raw = .obj is ∧ TypesSupported is) ∧
      ∀ ref, s.reference? = some ref → ∃ k d, Pointer.target? ref = some k ∧ Declares ms k d := fun s hs => by
    cases hs with
    | event hreach => exact types_and_references h hevent hrs rfl hreach (.event hreach)
    | definition hd hreach =>
      obtain ⟨m, hm⟩ := hall _ _ hd
      obtain ⟨before, after, he⟩ := List.append_of_mem hm
      obtain ⟨rs', hset, hrs'⟩ := settled_of_registered h (hvalid.sound.at_entry he).2.2 hd
      exact types_and_references h hset hrs' rfl hreach (.definition hd hreach)
  exact ⟨fun s hs => (hactive s hs).1, fun s ref hs => (hactive s hs).2 ref, acyclic_of_sound h hvalid.sound hall⟩

end

end Build
end TrackingPlan
