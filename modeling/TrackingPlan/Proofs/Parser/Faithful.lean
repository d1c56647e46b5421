import TrackingPlan.Proofs.Parser.Results
/-!
# Faithful — a parsed node stands for its schema

Whatever is reached from a parsed node, with its source, is put together from that source by the rules of `Made`
(`parse_grounded`).  So every node that a parse ends with, with a resolver or without, is faithful to its schema
(`parse_faithful`).  Custom types come in through the definitions at the root, as each of them is its definition,
plainly parsed.
-/
namespace TrackingPlan

/-- **A node that says nothing of itself** but what it refers to. -/
def Node.Blank (n : Node) : Prop := ∃ ref, n.info = { refName := ref }

theorem Node.Blank.isNullable_eq {n : Node} (h : n.Blank) : n.info.isNullable = false := by
  obtain ⟨ref, hinfo⟩ := h
  rw [hinfo]

namespace Parser

open Keywords (Members)
open Sourced (ItemsOf)

/-! ## The rules with less known of what is inside -/

namespace Made

variable {S S' : Members → List RawType → Node → Prop} {D D' : String → Node → Prop}
  (hS : ∀ ms ts n, S ms ts n → S' ms ts n) (hD : ∀ k n, D k n → D' k n)

include hS

theorem InFull.mono {v name : Json} {isRequired : Bool} {n : Node} (h : InFull S v name isRequired n) :
    InFull S' v name isRequired n := by
  obtain ⟨ms, ts, m, hv, hts, hm, hn⟩ := h.described
  exact ⟨h.parsedAs, ms, ts, m, hv, hts, hS _ _ _ hm, hn⟩

theorem Item.mono {v : Json} {n : Node} (h : Item S v n) : Item S' v n := by
  cases h with
  | reference href h => exact .reference href (h.mono hS)
  | shape href hts h => exact .shape href hts (hS _ _ _ h)

theorem Items.mono {ms : Members} {ref : Option String} {n : Node} (h : Items S ms ref n) : Items S' ms ref n := by
  cases h with
  | anything h => exact .anything h
  | reference hv href h => exact .reference hv href (h.mono hS)
  | untyped hv hu h => exact .untyped hv hu (hS _ _ _ h)
  | shape hv href hts h => exact .shape hv href hts (hS _ _ _ h)
  | several hv hvs h => exact .several hv hvs (h.imp fun _ _ h => h.mono hS)

include hD

theorem Definitions.mono {ms : Members} {c : Bool} {ds : List (String × Node)} (h : Definitions S D ms c ds) :
    Definitions S' D' ms c ds := by
  cases h with
  | custom h => exact .custom (h.imp fun _ _ hd => ⟨hd.1, hD _ _ hd.2⟩)
  | own h => exact .own (h.imp fun _ _ hd => ⟨hd.1, hd.2.mono hS⟩)

theorem AsType.mono {c : Bool} {ms : Members} {t : RawType} {n : Node} (h : AsType S D c ms t n) :
    AsType S' D' c ms t n := by
  cases h with
  | primitive ht => exact .primitive ht
  | object hrequired hps hds => exact .object hrequired (hps.imp fun _ _ h => h.mono hS) (hds.mono hS hD)
  | array h => exact .array (h.mono hS)

theorem Shape.mono {c : Bool} {ms : Members} {ts : List RawType} {n : Node} (h : Shape S D c ms ts n) :
    Shape S' D' c ms ts n := by
  cases h with
  | any hts => exact .any hts
  | one hts h => exact .one hts (h.mono hS hD)
  | several hts h => exact .several hts (h.imp fun _ _ h => h.mono hS hD)

omit hS hD

theorem AsType.blank {c : Bool} {ms : Members} {t : RawType} {n : Node} (h : AsType S D c ms t n) : n.Blank := by
  cases h with
  | primitive | object => exact ⟨none, rfl⟩
  | array => exact ⟨_, rfl⟩

theorem Shape.blank {c : Bool} {ms : Members} {ts : List RawType} {n : Node} (h : Shape S D c ms ts n) : n.Blank := by
  cases h with
  | any | several => exact ⟨none, rfl⟩
  | one _ h => exact h.blank

end Made

/-! ## Nodes with their sources -/

section

variable (D : String → Node → Prop) (c : Bool)

/-- **A node that is put together from its source**: a schema by its types or as one of them, or an item list. -/
inductive Assembled : Json → Node → Prop where
  | schema {ms ts n} (h : Made.Shape (fun _ _ m => m.Blank) D c ms ts n) : Assembled (.obj ms) n
  | asType {ms t n} (h : Made.AsType (fun _ _ m => m.Blank) D c ms t n) : Assembled (.obj ms) n
  | itemList {vs ns} (h : List.Forall₂ (Made.Item (fun _ _ m => m.Blank)) (vs.filter Json.isObject) ns) :
    Assembled (.arr vs) (.union {} ns none)

end

namespace Sourced

variable {declares : String → Json → Prop}

/-- The node is put together from its source, whatever it says of itself. -/
def Built (declares : String → Json → Prop) (s : Sourced) : Prop :=
  ∃ n f, s.node = n.withInfo f ∧ Assembled (fun k _ => ∃ v, declares k v) s.atRoot s.raw n

/-- **All that is reached is put together from its source.** -/
def Grounded (declares : String → Json → Prop) (s : Sourced) : Prop := ∀ t, s.Reaches declares t → t.Built declares

theorem Built.of_assembled {n : Node} {v : Json} {c : Bool} (h : Assembled (fun k _ => ∃ v, declares k v) c v n) :
    Built declares ⟨n, v, c⟩ :=
  ⟨n, id, by cases n <;> rfl, h⟩

theorem Built.withInfo {n : Node} {v : Json} {c : Bool} (h : Built declares ⟨n, v, c⟩) (f : Info → Info) :
    Built declares ⟨n.withInfo f, v, c⟩ := by
  obtain ⟨m, g, rfl, hm⟩ := h
  exact ⟨m, fun i => f (g i), by cases m <;> rfl, hm⟩

theorem Grounded.of_children {s : Sourced} (h : s.Built declares) (hc : ∀ t, s.Child declares t → t.Grounded declares) :
    s.Grounded declares := fun t ht => by
  rcases Relation.ReflTransGen.cases_head ht with rfl | ⟨u, hsu, hut⟩
  · exact h
  · exact hc u hsu t hut

theorem Grounded.of_child {s t : Sourced} (h : s.Grounded declares) (hc : s.Child declares t) : t.Grounded declares :=
  fun u hu => h u (.head hc hu)

theorem Grounded.withInfo {n : Node} {v : Json} {c : Bool} (h : Grounded declares ⟨n, v, c⟩) (f : Info → Info) :
    Grounded declares ⟨n.withInfo f, v, c⟩ :=
  .of_children ((h _ .refl).withInfo f) fun _ ht => h.of_child ht.of_withInfo

end Sourced

/-! ## All that is reached -/

section

variable {declares : String → Json → Prop}

/-- What is shown of shapes: they are blank, and all that is reached from them is put together from its source. -/
def GroundedShape (declares : String → Json → Prop) (c : Bool) (ms : Members) (_ : List RawType) (n : Node) : Prop :=
  n.Blank ∧ Sourced.Grounded declares ⟨n, .obj ms, c⟩

/-- What is known of custom types: they are declared, and grounded in their definitions. -/
def GroundedType (declares : String → Json → Prop) (k : String) (n : Node) : Prop :=
  (∃ v, declares k v) ∧ ∀ v, declares k v → Sourced.Grounded declares ⟨n, v, false⟩

theorem Made.InFull.grounded {v name : Json} {isRequired : Bool} {n : Node}
    (h : Made.InFull (GroundedShape declares false) v name isRequired n) : Sourced.Grounded declares ⟨n, v, false⟩ := by
  obtain ⟨ms, ts, m, rfl, -, hm, rfl⟩ := h.described
  exact hm.2.withInfo _

theorem Made.Item.grounded {v : Json} {n : Node} (h : Made.Item (GroundedShape declares false) v n) :
    Sourced.Grounded declares ⟨n, v, false⟩ := by
  cases h with
  | reference _ h => exact h.grounded
  | shape _ _ h => exact h.2

theorem grounded_itemList {vs : List Json} {ns : List Node}
    (h : List.Forall₂ (Made.Item (GroundedShape declares false)) (vs.filter Json.isObject) ns) :
    Sourced.Grounded declares ⟨.union {} ns none, .arr vs, false⟩ := by
  refine .of_children (.of_assembled (.itemList (h.imp fun _ _ hn => hn.mono fun _ _ _ hm => hm.1))) fun t ht => ?_
  cases ht with
  | entry ht => exact ((List.forall₂_iff_zip.1 h).2 ht).grounded

/-- The items that are there have a source, and are grounded in it. -/
theorem Made.Items.grounded {ms : Members} {ref : Option String} {n : Node} {v : Json}
    (h : Made.Items (GroundedShape declares false) ms ref n) (hv : ItemsOf ms v) :
    Sourced.Grounded declares ⟨n, v, false⟩ := by
  cases h with
  | anything h => exact absurd hv (h v)
  | reference hv' _ h => rw [hv.unique hv']; exact h.grounded
  | untyped hv' _ h | shape hv' _ _ h => rw [hv.unique hv']; exact h.2
  | several hv' _ h => rw [hv.unique hv']; exact grounded_itemList h

variable {c : Bool} {ms : Members}

theorem Made.Definitions.grounded {ps : List Node} {ds : List (String × Node)}
    (h : Made.Definitions (GroundedShape declares false) (GroundedType declares) ms c ds)
    (hps : ∀ e p, (e, p) ∈ (schemasIn ms "properties").zip ps → Sourced.Grounded declares ⟨p, e.2, false⟩) {t : Sourced}
    (ht : Sourced.Child declares ⟨.object {} ps ds, .obj ms, c⟩ t) : t.Grounded declares := by
  cases ht with
  | property hp => exact hps _ _ hp
  | definition hd =>
    cases h with
    | own h => exact ((List.forall₂_iff_zip.1 h).2 hd).2.grounded
  | customType hd hv =>
    cases h with
    | custom h =>
      obtain ⟨e, -, -, -, he⟩ := Sourced.exists_related h hd
      exact he _ hv

theorem Made.AsType.grounded {t : RawType} {n : Node}
    (h : Made.AsType (GroundedShape declares false) (GroundedType declares) c ms t n) :
    Sourced.Grounded declares ⟨n, .obj ms, c⟩ := by
  refine .of_children (.of_assembled (.asType (h.mono (fun _ _ _ hm => hm.1) fun _ _ hn => hn.1))) fun u hu => ?_
  cases h with
  | primitive => cases hu
  | object _ hps hds => exact hds.grounded (fun e p hp => ((List.forall₂_iff_zip.1 hps).2 hp).grounded) hu
  | array h =>
    cases hu with
    | items hl => exact h.grounded (.one hl)
    | item hl hv => exact h.grounded (.sole hl hv)
    | itemList hl hvs => exact h.grounded (.several hl hvs)

/-- **The rules keep shapes grounded.** -/
theorem Made.Shape.grounded {ts : List RawType} {n : Node}
    (h : Made.Shape (GroundedShape declares false) (GroundedType declares) c ms ts n) :
    GroundedShape declares c ms ts n := by
  refine ⟨h.blank, .of_children (.of_assembled (.schema (h.mono (fun _ _ _ hm => hm.1) fun _ _ hn => hn.1))) ?_⟩
  intro u hu
  cases h with
  | any => cases hu
  | one _ h => exact h.grounded.of_child hu
  | several _ h =>
    cases hu with
    | member hm =>
      obtain ⟨t, -, ht⟩ := Sourced.exists_related h hm
      exact ht.grounded

variable {raw name : Json} {isRequired : Bool} {path : Location} {n : Node}

/-- **A parse without resolver** gives a node that is put together from the schema, all the way down. -/
theorem parse_grounded {l : Ledger} (h : (parse none raw name isRequired path).outcome l = .ok n) :
    Sourced.Grounded declares ⟨n, raw, false⟩ := by
  obtain ⟨ms, ts, m, rfl, -, hm, rfl⟩ := parse_results (S := GroundedShape declares) (D := GroundedType declares)
    (fun _ _ _ _ => Made.Shape.grounded) h
  exact hm.2.withInfo _

end

end Parser

namespace Resolver

open TrackingPlan.Parser (Sourced)

variable {r : Resolver} {raw name : Json} {isRequired : Bool} {path : Location} {n : Node}

/-- A definition of the resolver, by its key. -/
def Declares (r : Resolver) (k : String) (v : Json) : Prop := r.definitions.find? (.key k) = .ok (some v)

/-- **A custom type is grounded in its definition.** -/
theorem Registered.grounded {before : Registry} {k : String} (h : r.Registered before (.key k) n) :
    Parser.GroundedType r.Declares k n := by
  obtain ⟨ms, plain, hd, hplain, hnode⟩ := h.plain
  refine ⟨⟨_, hd⟩, fun v hv => ?_⟩
  cases Except.ok.inj (hd.symm.trans hv)
  have hgrounded : Sourced.Grounded r.Declares ⟨plain, .obj ms, false⟩ := Parser.parse_grounded (hplain Pointer.root)
  split at hnode
  · rw [hnode]; exact hgrounded
  · obtain ⟨_, -, rfl⟩ := hnode
    exact hgrounded.withInfo _

/-- **A parse with a resolver**, after any history, gives a node that is put together from the schema. -/
theorem parse_grounded {l : Ledger} (hl : r.Valid l) (h : (r.parse raw name isRequired path).outcome l = .ok n) :
    Sourced.Grounded r.Declares ⟨n, raw, Parser.takesCustomTypes true path⟩ := by
  obtain ⟨ms, ts, m, rfl, -, hm, rfl⟩ := parse_results (S := Parser.GroundedShape r.Declares)
    (D := Parser.GroundedType r.Declares) (fun _ _ _ => Registered.grounded) (fun _ _ _ _ => Parser.Made.Shape.grounded)
    hl h
  exact hm.2.withInfo _

end Resolver

/-! ## Faithful nodes -/

namespace Parser

open Sourced (ItemsOf)

variable {S : Keywords.Members → List RawType → Node → Prop} {declares : String → Json → Prop}
  {D : String → Node → Prop} {ms : Keywords.Members} {c : Bool}

theorem Made.Items.children {ref : Option String} {n : Node} (h : Made.Items S ms ref n) {i : Info} :
    n = .anything ∨ ∃ t, Sourced.Child declares ⟨.array i n, .obj ms, c⟩ t ∧ t.node = n := by
  have hsource : ∀ {v}, ItemsOf ms v → ∃ t, Sourced.Child declares ⟨.array i n, .obj ms, c⟩ t ∧ t.node = n := by
    intro v hv
    cases hv with
    | one h => exact ⟨_, .items h, rfl⟩
    | sole h hv => exact ⟨_, .item h hv, rfl⟩
    | several h hvs => exact ⟨_, .itemList h hvs, rfl⟩
  cases h with
  | anything => exact .inl rfl
  | reference hv | untyped hv | shape hv | several hv => exact .inr (hsource hv)

theorem Made.AsType.accurate (hD : ∀ k n, D k n → ∃ v, declares k v) {t : RawType} {n : Node}
    (h : Made.AsType S D c ms t n) : Sourced.Accurate declares ⟨n, .obj ms, c⟩ := by
  cases h with
  | primitive => exact ⟨fun _ _ _ he => (by cases he), fun _ hm => (by cases hm)⟩
  | array h => exact ⟨fun _ _ _ he => (by cases he), fun _ hm => (by cases hm; exact h.children)⟩
  | @object required ps ds hrequired hps hds =>
    refine ⟨fun _ _ _ he => ?_, fun m hm => .inr ?_⟩
    · cases he
      exact ⟨ms, rfl, required, hrequired, hps.imp fun _ _ h => h.parsedAs⟩
    · cases hm with
      | property hp =>
        obtain ⟨e, he⟩ := Sourced.exists_zip hps hp
        exact ⟨_, .property he, rfl⟩
      | definition hd =>
        cases hds with
        | own hds =>
          obtain ⟨e, he⟩ := Sourced.exists_zip hds hd
          exact ⟨_, .definition he, rfl⟩
        | custom hds =>
          obtain ⟨e, he⟩ := Sourced.exists_zip hds hd
          obtain ⟨v, hv⟩ := hD _ _ ((List.forall₂_iff_zip.1 hds).2 he).2
          exact ⟨_, .customType hd hv, rfl⟩

theorem Assembled.accurate {v : Json} {n : Node} (h : Assembled (fun k _ => ∃ v, declares k v) c v n) :
    Sourced.Accurate declares ⟨n, v, c⟩ := by
  have hD : ∀ (k : String) (_ : Node), (∃ v, declares k v) → ∃ v, declares k v := fun _ _ h => h
  cases h with
  | asType h => exact h.accurate hD
  | schema h =>
    cases h with
    | any => exact ⟨fun _ _ _ he => (by cases he), fun _ hm => (by cases hm)⟩
    | one _ h => exact h.accurate hD
    | several =>
      refine ⟨fun _ _ _ he => (by cases he), fun _ hm => .inr ?_⟩
      cases hm with
      | member hm => exact ⟨_, .member hm, rfl⟩
  | itemList h =>
    refine ⟨fun _ _ _ he => (by cases he), fun _ hm => .inr ?_⟩
    cases hm with
    | member hm =>
      obtain ⟨v, hv⟩ := Sourced.exists_zip h hm
      exact ⟨_, .entry hv, rfl⟩

/-- What a node says of itself has no part in this. -/
theorem Sourced.Built.accurate {s : Sourced} (h : s.Built declares) : s.Accurate declares := by
  obtain ⟨node, raw, atRoot⟩ := s
  obtain ⟨n, f, rfl, hn⟩ := h
  refine ⟨fun i ps ds he => ?_, fun m hm => ?_⟩
  · cases n with
    | object j qs es => cases he; exact hn.accurate.properties j ps ds rfl
    | _ => cases he
  · exact (hn.accurate.children m hm.of_withInfo).imp_right fun ⟨t, ht, he⟩ => ⟨t, ht.withInfo f, he⟩

theorem Sourced.Grounded.faithful {s : Sourced} (h : s.Grounded declares) : s.Faithful declares :=
  fun t ht => (h t ht).accurate

end Parser
end TrackingPlan
