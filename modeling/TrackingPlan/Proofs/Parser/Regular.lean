import TrackingPlan.Proofs.Parser.Properties
import TrackingPlan.Proofs.Payload
import TrackingPlan.Proofs.Resolver.Faults
import TrackingPlan.Schema.Handmade
/-!
# Regular — what every parsed node keeps to

What a node may say of itself hangs on its role, that is, on what it is to the node it lies in.  A node is `Regular` in
a role when it keeps to the conditions on that role (`RegularAs`), and so does all that lies in it.  Shapes are regular
in every role, as they say nothing of themselves; what is parsed in full says that it is required only where that is
asked for, and that it is nullable only if its schema admits null, so that its enum has a null.  Hence every parsed node
is regular, as the root (`parsed_regular`).
-/
namespace TrackingPlan

/-! ## Regular nodes -/

namespace Node

/-- What a node is to the one it lies in, if it lies in one. -/
inductive Role where
  | root
  | property
  | definition
  | items
  | member
deriving DecidableEq

/-- The second node lies directly in the first, in a role. -/
inductive ChildAs : Node → Role → Node → Prop where
  | items (i : Info) (n : Node) : ChildAs (.array i n) .items n
  | property {i ps ds p} (h : p ∈ ps) : ChildAs (.object i ps ds) .property p
  | definition {i ps ds k d} (h : (k, d) ∈ ds) : ChildAs (.object i ps ds) .definition d
  | member {i ms e m} (h : m ∈ ms) : ChildAs (.union i ms e) .member m

/-- **The nodes of a tree**, each in its role. -/
inductive Stands (n : Node) : Role → Node → Prop where
  | root : Stands n .root n
  | child {ρ m σ c} (h : Stands n ρ m) (hc : m.ChildAs σ c) : Stands n σ c

/-- **Where a node has an enum, null is in it**, as such or as a text. -/
def NullInEnum (n : Node) : Prop := ∀ vs, n.enum? = some vs → ∃ v ∈ vs, Keywords.isNullLike v = true

/-- **A member that stands for one type of its union**, and says nothing else of itself. -/
structure Alternative (n : Node) : Prop where
  not_any : n.kind? ≠ some (.primitive .any)
  not_union : n.kind? ≠ some .union
  name : n.info.name = .str ""
  description : n.info.description = none
  isRequired : n.info.isRequired = false
  isNullable : n.info.isNullable = false

/-- **What a node in a role keeps to.** -/
structure RegularAs (ρ : Role) (n : Node) : Prop where
  concrete : ∃ k, n.kind? = some k
  /-- A primitive is of a kind that one made by hand may have. -/
  primitive : ∀ i p e, n = .primitive i p e → ∃ k, n.kind? = some k ∧ makePrimitive i k e = .ok n
  several : ∀ i ms e, n = .union i ms e → 2 ≤ ms.length
  alternatives : ρ ≠ .items → ∀ i ms e, n = .union i ms e → (ms.map kind?).Nodup ∧ ∀ m ∈ ms, m.Alternative
  required : n.info.isRequired = true → ρ = .property ∨ ρ = .root
  nullable : n.info.isNullable = true → n.NullInEnum

/-- **All in a node keeps to its role**, and the node to this one. -/
inductive Regular : Role → Node → Prop where
  | intro {ρ n} (h : n.RegularAs ρ) (hc : ∀ σ c, n.ChildAs σ c → Regular σ c) : Regular ρ n

variable {ρ : Role} {n : Node}

theorem Regular.regularAs (h : n.Regular ρ) : n.RegularAs ρ := by
  cases h with
  | intro h => exact h

theorem Regular.child (h : n.Regular ρ) {σ : Role} {c : Node} (hc : n.ChildAs σ c) : c.Regular σ := by
  cases h with
  | intro _ h => exact h σ c hc

theorem Regular.stands (h : n.Regular .root) {m : Node} (hm : n.Stands ρ m) : m.Regular ρ := by
  induction hm with
  | root => exact h
  | child _ hc ih => exact ih.child hc

theorem ChildAs.of_withInfo {f : Info → Info} {σ : Role} {c : Node} (h : (n.withInfo f).ChildAs σ c) :
    n.ChildAs σ c := by
  cases n with
  | bare | primitive => cases h
  | array => cases h; exact .items _ _
  | object =>
    cases h with
    | property h => exact .property h
    | definition h => exact .definition h
  | union => cases h with | member h => exact .member h

theorem makePrimitive_self {i : Info} {p : Primitive} {e : Option (List Json)} (h : n = .primitive i p e) :
    ∃ k, n.kind? = some k ∧ makePrimitive i k e = .ok n := by
  subst h
  exact ⟨.primitive p, rfl, rfl⟩

/-- **What is written onto a regular node** has to fit its role and its enum. -/
theorem Regular.withInfo (h : n.Regular ρ) {f : Info → Info}
    (hrequired : (f n.info).isRequired = true → ρ = .property ∨ ρ = .root)
    (hnullable : (f n.info).isNullable = true → n.NullInEnum) : (n.withInfo f).Regular ρ := by
  have hn := h.regularAs
  have hkind : (n.withInfo f).kind? = n.kind? := by cases n <;> rfl
  have henum : (n.withInfo f).enum? = n.enum? := by cases n <;> rfl
  have hunion : ∀ {i ms e}, n.withInfo f = .union i ms e → ∃ j, n = .union j ms e := by
    intro i ms e he
    cases n with
    | union j => cases he; exact ⟨j, rfl⟩
    | _ => cases he
  refine .intro ⟨hkind ▸ hn.concrete, fun _ _ _ => makePrimitive_self, ?_, ?_, ?_, ?_⟩ fun _ _ hc =>
    h.child hc.of_withInfo
  · intro i ms e he
    obtain ⟨j, hj⟩ := hunion he
    exact hn.several j ms e hj
  · intro hρ i ms e he
    obtain ⟨j, hj⟩ := hunion he
    exact hn.alternatives hρ j ms e hj
  · rw [info_withInfo]
    exact hrequired
  · rw [info_withInfo, NullInEnum, henum]
    exact hnullable

/-- A blank node keeps to all that is said of required and nullable nodes. -/
theorem RegularAs.of_blank (h : n.Blank) (hconcrete : ∃ k, n.kind? = some k)
    (hunion : ∀ i ms e, n = .union i ms e →
      2 ≤ ms.length ∧ (ρ ≠ .items → (ms.map kind?).Nodup ∧ ∀ m ∈ ms, m.Alternative)) : n.RegularAs ρ := by
  obtain ⟨ref, hinfo⟩ := h
  refine ⟨hconcrete, fun _ _ _ => makePrimitive_self, fun i ms e he => (hunion i ms e he).1,
    fun hρ i ms e he => (hunion i ms e he).2 hρ, ?_, ?_⟩
  · rw [hinfo]
    exact fun hrequired => by cases hrequired
  · rw [hinfo]
    exact fun hnullable => by cases hnullable

theorem regular_primitive (ρ : Role) (p : Primitive) (e : Option (List Json)) : (primitive {} p e).Regular ρ :=
  .intro (.of_blank ⟨none, rfl⟩ ⟨_, rfl⟩ fun _ _ _ he => by cases he) fun _ _ hc => by cases hc

/-- **Nothing in a regular node is bare.** -/
theorem Regular.solid (h : n.Regular ρ) : n.Solid := by
  intro i hi
  have hinside : ∀ m, n.Contains m → ∃ σ, m.Regular σ := by
    intro m hm
    induction hm with
    | refl => exact ⟨ρ, h⟩
    | tail _ hc ih =>
      obtain ⟨σ, hσ⟩ := ih
      cases hc with
      | items => exact ⟨_, hσ.child (.items _ _)⟩
      | property hp => exact ⟨_, hσ.child (.property hp)⟩
      | definition hd => exact ⟨_, hσ.child (.definition hd)⟩
      | member hm => exact ⟨_, hσ.child (.member hm)⟩
  obtain ⟨σ, hσ⟩ := hinside _ hi
  obtain ⟨k, hk⟩ := hσ.regularAs.concrete
  cases hk

end Node

/-! ## Enums with null -/

namespace Keywords

theorem isNullLike_of_sameScalar {v w : Json} (h : v.sameScalar w = true) (hv : isNullLike v = true) :
    isNullLike w = true := by
  cases v with
  | null => rw [Json.eq_null_of_sameScalar h]; rfl
  | str s => cases w with | str t => cases beq_iff_eq.1 h; exact hv | _ => cases h
  | _ => cases hv

/-- **A schema that admits null has a null left in its enum**, if it has an enum. -/
theorem nullLike_of_admitsNull {ms : Members} {ts : List RawType} (h : admitsNull ms ts = true) {vs : List Json}
    (hvs : enum? ms = some vs) : ∃ v ∈ vs, isNullLike v = true := by
  unfold admitsNull at h
  unfold enum? at hvs
  cases hraw : rawEnum ms with
  | none => rw [hraw] at hvs; cases hvs
  | some ws =>
    rw [hraw] at h hvs
    simp only at hvs
    split at hvs
    · cases hvs
    · cases hvs
      obtain ⟨w, hw, hnull⟩ := List.any_eq_true.1 (Bool.and_eq_true_iff.1 h).2
      have hscalar : w.isScalar = true := by
        cases w with
        | arr | obj => cases hnull
        | _ => rfl
      obtain ⟨u, hu, hwu⟩ := scalars_covers hscalar hw
      exact ⟨u, hu, isNullLike_of_sameScalar hwu hnull⟩

end Keywords

/-! ## Shapes -/

namespace Parser

open Keywords (Members)
open Node (Role)

/-- What is shown of shapes: they are blank, regular in every role, and their enum has a null if the schema admits it.
-/
def RegularShape (_ : Bool) (ms : Members) (ts : List RawType) (n : Node) : Prop :=
  ts.Nodup → n.Blank ∧ (∀ ρ, n.Regular ρ) ∧ (Keywords.admitsNull ms ts = true → n.NullInEnum)

/-- What is known of custom types. -/
def RegularType (_ : String) (n : Node) : Prop := n.Regular .definition

variable {ms : Members} {n : Node} {c : Bool}

theorem regular_describe {ts : List RawType} (hts : Keywords.types ms = .ok ts) (h : RegularShape c ms ts n)
    (name : Json) (isRequired : Bool) {ρ : Role} (hρ : isRequired = true → ρ = .property ∨ ρ = .root) :
    (Keywords.describe ms ts name isRequired n).Regular ρ := by
  obtain ⟨⟨ref, hinfo⟩, hregular, hnull⟩ := h (Keywords.nodup_of_types hts)
  refine (hregular ρ).withInfo (fun hrequired => hρ ?_) hnull
  rw [hinfo] at hrequired
  simpa using hrequired

theorem Made.InFull.regular {v name : Json} {isRequired : Bool}
    (h : Made.InFull (RegularShape false) v name isRequired n) {ρ : Role}
    (hρ : isRequired = true → ρ = .property ∨ ρ = .root) : n.Regular ρ := by
  obtain ⟨ms, ts, m, -, hts, hm, rfl⟩ := h.described
  exact regular_describe hts hm name isRequired hρ

theorem Made.Item.regular {v : Json} (h : Made.Item (RegularShape false) v n) (ρ : Role) : n.Regular ρ := by
  cases h with
  | reference _ h => exact h.regular fun hf => by cases hf
  | shape _ hts h => exact (h (Keywords.nodup_of_types hts)).2.1 ρ

theorem Made.Items.regular {ref : Option String} (h : Made.Items (RegularShape false) ms ref n) :
    n.Regular .items := by
  cases h with
  | anything => exact Node.regular_primitive ..
  | reference _ _ h => exact h.regular fun hf => by cases hf
  | untyped _ _ h => exact (h (by decide)).2.1 .items
  | shape _ _ hts h => exact (h (Keywords.nodup_of_types hts)).2.1 .items
  | several _ hvs h =>
    refine .intro (.of_blank ⟨none, rfl⟩ ⟨_, rfl⟩ fun i ms e he => ?_) fun σ m hm => ?_
    · cases he
      exact ⟨h.length_eq ▸ hvs, fun hitems => absurd rfl hitems⟩
    · cases hm with
      | member hm =>
        obtain ⟨v, -, hv⟩ := Sourced.exists_related h hm
        exact hv.regular .member

theorem Made.Definitions.regular {ds : List (String × Node)}
    (h : Made.Definitions (RegularShape false) RegularType ms c ds) {k : String} {d : Node} (hd : (k, d) ∈ ds) :
    d.Regular .definition := by
  cases h with
  | custom h =>
    obtain ⟨e, -, -, he⟩ := Sourced.exists_related h hd
    exact he
  | own h =>
    obtain ⟨e, -, -, he⟩ := Sourced.exists_related h hd
    exact he.regular fun hf => by cases hf

variable {t : RawType}

theorem Made.AsType.kind? {S : Members → List RawType → Node → Prop} {D : String → Node → Prop}
    (h : Made.AsType S D c ms t n) : n.kind? = some t.kind := by
  cases h with
  | primitive ht => rw [ht]; rfl
  | object | array => rfl

theorem Made.AsType.regular (h : Made.AsType (RegularShape false) RegularType c ms t n) (ρ : Role) : n.Regular ρ := by
  have hregularAs : n.RegularAs ρ := by
    refine .of_blank h.blank ⟨_, h.kind?⟩ fun i ns e he => ?_
    subst he
    cases h
  refine .intro hregularAs fun σ m hm => ?_
  cases h with
  | primitive => cases hm
  | object _ hps hds =>
    cases hm with
    | property hp =>
      obtain ⟨e, -, he⟩ := Sourced.exists_related hps hp
      exact he.regular fun _ => .inl rfl
    | definition hd => exact hds.regular hd
  | array h => cases hm; exact h.regular

/-- As one type, null aside, a schema has the enum of its keywords if any. -/
theorem Made.AsType.nullInEnum {S : Members → List RawType → Node → Prop} {D : String → Node → Prop}
    (h : Made.AsType S D c ms t n) (ht : t ≠ .null) {ts : List RawType} (hnull : Keywords.admitsNull ms ts = true) :
    n.NullInEnum := by
  intro vs hvs
  cases h with
  | primitive =>
    change (if t = .null then _ else Keywords.enum? ms) = some vs at hvs
    rw [if_neg ht] at hvs
    exact Keywords.nullLike_of_admitsNull hnull hvs
  | object | array => cases hvs

theorem kind_injective {t u : RawType} (ht : t ≠ .null) (hu : u ≠ .null) (h : t.kind = u.kind) : t = u := by
  cases t <;> cases u <;> first | rfl | contradiction

/-- The members of a union, one for each type, are of different kinds. -/
theorem nodup_kinds {S : Members → List RawType → Node → Prop} {D : String → Node → Prop} {ts : List RawType}
    {ns : List Node} (h : List.Forall₂ (Made.AsType S D c ms) ts ns) (hts : ts.Nodup) (hnull : ∀ t ∈ ts, t ≠ .null) :
    (ns.map Node.kind?).Nodup := by
  have hkinds : ts.map (fun t => some t.kind) = ns.map Node.kind? :=
    Sourced.map_eq_of_related h fun _ _ hn => hn.kind?.symm
  rw [← hkinds]
  refine hts.map_on fun t ht u hu he => ?_
  exact kind_injective (hnull t ht) (hnull u hu) (Option.some.inj he)

theorem Made.AsType.alternative {S : Members → List RawType → Node → Prop} {D : String → Node → Prop}
    (h : Made.AsType S D c ms t n) (ht : t ≠ .null) : n.Alternative := by
  obtain ⟨ref, hinfo⟩ := h.blank
  have hkind := h.kind?
  refine ⟨fun hany => ?_, fun hunion => ?_, ?_, ?_, ?_, ?_⟩
  · rw [hkind] at hany
    cases t <;> first | exact ht rfl | cases hany
  · rw [hkind] at hunion
    cases t <;> cases hunion
  all_goals rw [hinfo]

/-- **The rules keep shapes regular.** -/
theorem Made.Shape.regular {ts : List RawType} (h : Made.Shape (RegularShape false) RegularType c ms ts n) :
    RegularShape c ms ts n := by
  intro hnodup
  have hnull : ∀ t ∈ ts.filter (· ≠ .null), t ≠ .null := fun t ht => by simpa using (List.mem_filter.1 ht).2
  refine ⟨h.blank, fun ρ => ?_, fun hadmits => ?_⟩
  · cases h with
    | any => exact Node.regular_primitive ..
    | one _ h => exact h.regular ρ
    | several hts h =>
      have hkinds := nodup_kinds h (hnodup.filter _) hnull
      refine .intro (.of_blank ⟨none, rfl⟩ ⟨_, rfl⟩ fun i ns e he => ?_) fun σ m hm => ?_
      · cases he
        refine ⟨h.length_eq ▸ hts, fun _ => ⟨hkinds, fun m hm => ?_⟩⟩
        obtain ⟨t, ht, htype⟩ := Sourced.exists_related h hm
        exact htype.alternative (hnull t ht)
      · cases hm with
        | member hm =>
          obtain ⟨t, -, htype⟩ := Sourced.exists_related h hm
          exact htype.regular .member
  · cases h with
    | any =>
      intro vs hvs
      change (if ts = [.null] then some [.null] else Keywords.enum? ms) = some vs at hvs
      split at hvs
      · cases hvs
        exact ⟨.null, List.mem_singleton_self _, rfl⟩
      · exact Keywords.nullLike_of_admitsNull hadmits hvs
    | one hts h => exact h.nullInEnum (hnull _ (hts ▸ List.mem_singleton_self _)) hadmits
    | several => exact fun vs hvs => Keywords.nullLike_of_admitsNull hadmits hvs

variable {raw name : Json} {isRequired : Bool} {path : Location} {ρ : Role}

/-- **A parse without resolver** gives a regular node. -/
theorem parse_regular {l : Ledger} (h : (parse none raw name isRequired path).outcome l = .ok n)
    (hρ : isRequired = true → ρ = .property ∨ ρ = .root) : n.Regular ρ := by
  obtain ⟨ms, ts, m, rfl, hts, hm, rfl⟩ := parse_results (S := RegularShape) (D := RegularType)
    (fun _ _ _ _ => Made.Shape.regular) h
  exact regular_describe hts hm name isRequired hρ

/-- A plain parse is at fault for a schema or its keywords only. -/
theorem parse_fault {l : Ledger} {f : Fault} (h : (parse none raw name isRequired path).outcome l = .error f) :
    f.IsSchema ∨ f.Outer := by
  rw [outcome_parse_plain] at h
  rcases Script.answer_error (script_keeps ..) h with ⟨s, -, hblame⟩ | ⟨_, _, -, hv⟩ | ⟨_, _, -, -, hv⟩
  · exact hblame.schema_or_outer
  · cases hv
  · cases hv

end Parser

namespace Resolver

open Node (Role)

variable {r : Resolver} {raw name : Json} {isRequired : Bool} {path : Location} {n : Node} {ρ : Role}

/-- **A custom type is regular as a definition.** -/
theorem Registered.regular {before : Registry} {id : DefId} (h : r.Registered before id n) :
    n.Regular .definition := by
  obtain ⟨ms, plain, -, hplain, hnode⟩ := h.plain
  have hregular : plain.Regular .definition := Parser.parse_regular (hplain Pointer.root) fun hf => by cases hf
  split at hnode
  · rw [hnode]; exact hregular
  · obtain ⟨_, -, rfl⟩ := hnode
    exact hregular.withInfo hregular.regularAs.required hregular.regularAs.nullable

theorem Sound.regular {reg : Registry} (h : r.Sound reg) {rs : List Script.Request}
    (hends : (Parser.script true raw name isRequired path).Ends rs n) (hrs : ∀ q ∈ rs, r.AnsweredBy reg q)
    (hρ : isRequired = true → ρ = .property ∨ ρ = .root) : n.Regular ρ := by
  obtain ⟨ms, ts, m, rfl, hts, hm, rfl⟩ := h.results (S := Parser.RegularShape) (D := Parser.RegularType)
    (fun _ _ _ => Registered.regular) (fun _ _ _ _ => Parser.Made.Shape.regular) hends hrs
  exact Parser.regular_describe hts hm name isRequired hρ

/-- **A parse with a resolver** gives a regular node. -/
theorem parse_regular {l : Ledger} (hl : r.Valid l) (h : (r.parse raw name isRequired path).outcome l = .ok n)
    (hρ : isRequired = true → ρ = .property ∨ ρ = .root) : n.Regular ρ := by
  have hkeeps := parse_keeps raw name isRequired path hl
  obtain ⟨rs, hends, hrs⟩ := hkeeps.result n h
  exact hkeeps.step.valid.sound.regular hends hrs hρ

end Resolver

/-! ## All nodes of a parse -/

/-- **Every node that a parse ends with is regular**, with or without a resolver and after any history: each node in it
keeps to what its role asks for.  And no parse fails by asking for a primitive of a kind that it cannot have. -/
theorem parsed_regular (r : Resolver) (calls : List Resolver.Call) (raw name : Json) (isRequired : Bool)
    (path : Location) (l : Ledger) :
    (∀ n, (Parser.parse none raw name isRequired path).outcome l = .ok n ∨
        (r.parse raw name isRequired path).outcome (r.performAll calls) = .ok n →
      ∀ ρ m, n.Stands ρ m → m.RegularAs ρ) ∧
    ∀ k, (Parser.parse none raw name isRequired path).outcome l ≠ .error (.notPrimitive k) ∧
      (r.parse raw name isRequired path).outcome (r.performAll calls) ≠ .error (.notPrimitive k) := by
  obtain ⟨hvalid, hnone⟩ := r.valid_performAll calls
  have hkind : ∀ k, ¬((Fault.notPrimitive k).IsSchema ∨ (Fault.notPrimitive k).Outer) := by
    rintro k (⟨e, he⟩ | houter)
    · cases he
    · cases houter
  refine ⟨fun n hn ρ m hm => ?_, fun k => ⟨fun h => hkind k (Parser.parse_fault h), fun h => ?_⟩⟩
  · have hregular : n.Regular .root := by
      rcases hn with h | h
      · exact Parser.parse_regular h fun _ => .inr rfl
      · exact Resolver.parse_regular hvalid h fun _ => .inr rfl
    exact (hregular.stands hm).regularAs
  · exact hkind k (Resolver.parse_fault hvalid hnone h)

/-! A record or a list, with a code in the record that is a text, a number or null. -/

def codeValues : List Json := [.str "none", .int 0, .null]

def mixed : Keywords.Members :=
  [("type", .arr [.str "object", .str "array", .str "null"]),
    ("properties", .obj
      [("code", .obj [("type", .arr [.str "string", .str "integer", .str "null"]), ("enum", .arr codeValues)])]),
    ("required", .arr [.str "code"]), ("items", .obj [("const", .str "null")])]

def mixedCode : Node :=
  .union { name := .str "code", isRequired := true, isNullable := true }
    [.primitive {} .string (some codeValues), .primitive {} .integer (some codeValues)] (some codeValues)

def mixedNode : Node :=
  .union { isNullable := true }
    [.object {} [mixedCode] [], .array {} (.primitive {} .any (some [.str "null"]))] none

theorem mixed_outcome : (Parser.parse none (.obj mixed) .null false Pointer.root).outcome {} = .ok mixedNode := by rfl

theorem parsed_regular_mixed :
    (Parser.parse none (.obj mixed) .null false Pointer.root).outcome {} = .ok mixedNode ∧
      mixedNode.Stands .property mixedCode ∧ mixedCode.RegularAs .property := by
  have hcode : mixedNode.Stands .property mixedCode :=
    (Node.Stands.root.child (.member List.mem_cons_self)).child (.property List.mem_cons_self)
  obtain ⟨hregular, -⟩ := parsed_regular Resolver.chained [] (.obj mixed) .null false Pointer.root {}
  exact ⟨mixed_outcome, hcode, hregular mixedNode (.inl mixed_outcome) .property mixedCode hcode⟩

end TrackingPlan
