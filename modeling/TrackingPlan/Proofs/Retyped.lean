import Mathlib.Data.List.Forall2
import TrackingPlan.Proofs.Keywords
import TrackingPlan.Proofs.Parser.Faultless
import TrackingPlan.Proofs.Payload
/-!
# Retyped — the same set of types, named in other ways

`Retyped` schemas are one schema whose types are named in another order or number, or by themselves in place of a list,
at any depth.  The keywords of a schema are then the same or retyped, each as its name says (`RetypedSchema.lookup`),
and its types are the same but for the order (`Keywords.types_of_sameNames`).  `Regrouped` nodes are one node with the
members of unions in any order.
-/
namespace TrackingPlan

open Keywords (Members)

/-! ## Schemas -/

/-- What a value of `type` lists; a name by itself is a list of one. -/
def Keywords.listed? : Json → Option (List Json)
  | .arr vs => some vs
  | .str s => some [.str s]
  | _ => none

/-- **The same set of types**: the same value, or lists of the same names, whatever their order and number. -/
def SameTypes (v w : Json) : Prop :=
  v = w ∨ ∃ vs ws, Keywords.listed? v = some vs ∧ Keywords.listed? w = some ws ∧ ∀ x, x ∈ vs ↔ x ∈ ws

mutual
/-- **The same value, the schemas in it having the same sets of types.** -/
inductive Retyped : Json → Json → Prop where
  | same (v : Json) : Retyped v v
  | schema {ms ns} (h : List.Forall₂ RetypedKeyword ms ns) : Retyped (.obj ms) (.obj ns)
/-- The same keyword: types, schemas by name, items, or any other as it stands. -/
inductive RetypedKeyword : String × Json → String × Json → Prop where
  | types {key v w} (hkey : key = "type") (h : SameTypes v w) : RetypedKeyword (key, v) (key, w)
  | schemas {key ds es} (hkey : key = "properties" ∨ key = "$defs") (h : List.Forall₂ RetypedEntry ds es) :
    RetypedKeyword (key, .obj ds) (key, .obj es)
  | items {key v w} (hkey : key = "items") (h : Retyped v w) : RetypedKeyword (key, v) (key, w)
  | itemList {key vs ws} (hkey : key = "items") (h : List.Forall₂ Retyped vs ws) :
    RetypedKeyword (key, .arr vs) (key, .arr ws)
  | same (e : String × Json) : RetypedKeyword e e
/-- The same name for schemas that are retyped. -/
inductive RetypedEntry : String × Json → String × Json → Prop where
  | entry (k : String) {v w} (h : Retyped v w) : RetypedEntry (k, v) (k, w)
end

/-- The same schema object, its schemas having the same sets of types. -/
abbrev RetypedSchema (ms ns : Members) : Prop := List.Forall₂ RetypedKeyword ms ns

theorem Retyped.cases {v w : Json} (h : Retyped v w) :
    (∃ ms ns, v = .obj ms ∧ w = .obj ns ∧ RetypedSchema ms ns) ∨ v = w ∧ v.isObject = false := by
  cases h with
  | schema h => exact .inl ⟨_, _, rfl, rfl, h⟩
  | same =>
    cases v with
    | obj ms => exact .inl ⟨ms, ms, rfl, rfl, List.forall₂_same.2 fun e _ => .same e⟩
    | _ => exact .inr ⟨rfl, rfl⟩

theorem RetypedSchema.lookup {ms ns : Members} (h : RetypedSchema ms ns) (key : String) :
    Option.Rel (fun v w => RetypedKeyword (key, v) (key, w)) (ms.lookup key) (ns.lookup key) := by
  induction h with
  | nil => exact .none
  | @cons e f ms ns he _ ih =>
    have hkey : e.1 = f.1 := by cases he <;> rfl
    obtain ⟨k, v⟩ := e
    obtain ⟨k', w⟩ := f
    cases hkey
    rw [List.lookup_cons, List.lookup_cons]
    split
    · next hk => rw [beq_iff_eq.1 hk]; exact .some he
    · exact ih

/-! ## Nodes -/

mutual
/-- **The same node, the members of unions in any order**, at any depth. -/
inductive Node.Regrouped : Node → Node → Prop where
  | bare (i : Info) : Regrouped (.bare i) (.bare i)
  | primitive (i : Info) (k : Primitive) (e : Option (List Json)) : Regrouped (.primitive i k e) (.primitive i k e)
  | array (i : Info) {n m} (h : Regrouped n m) : Regrouped (.array i n) (.array i m)
  | object (i : Info) {ps qs ds es} (hps : List.Forall₂ Regrouped ps qs) (hds : List.Forall₂ RegroupedEntry ds es) :
    Regrouped (.object i ps ds) (.object i qs es)
  | union (i : Info) {ms ks ns} (e : Option (List Json)) (h : List.Forall₂ Regrouped ms ks) (hperm : ks.Perm ns) :
    Regrouped (.union i ms e) (.union i ns e)
/-- The same name for such nodes. -/
inductive Node.RegroupedEntry : String × Node → String × Node → Prop where
  | entry (k : String) {n m} (h : Regrouped n m) : RegroupedEntry (k, n) (k, m)
end

namespace Node

variable {n m : Node}

theorem Regrouped.info_eq (h : n.Regrouped m) : n.info = m.info := by
  cases h <;> rfl

theorem Regrouped.withInfo (h : n.Regrouped m) (f : Info → Info) : (n.withInfo f).Regrouped (m.withInfo f) := by
  cases h with
  | bare i => exact .bare (f i)
  | primitive i k e => exact .primitive (f i) k e
  | array i h => exact .array (f i) h
  | object i hps hds => exact .object (f i) hps hds
  | union i e h hperm => exact .union (f i) e h hperm

end Node

/-! ## Keywords -/

namespace RetypedSchema

variable {ms ns : Members} (h : RetypedSchema ms ns)

include h

theorem lookup_eq {key : String} (hkey : key ∉ ["type", "properties", "$defs", "items"]) :
    ms.lookup key = ns.lookup key := by
  have hrel := h.lookup key
  generalize ms.lookup key = v at hrel ⊢
  generalize ns.lookup key = w at hrel ⊢
  cases hrel with
  | none => rfl
  | some hvw =>
    cases hvw with
    | same => rfl
    | schemas hk => rcases hk with rfl | rfl <;> exact absurd (by decide) hkey
    | types hk | items hk | itemList hk => subst hk; exact absurd (by decide) hkey

theorem details : Keywords.SameDetails ms ns where
  lookup _ hkey := h.lookup_eq fun hmem => hkey (List.mem_cons_of_mem "$ref" hmem)

theorem reference? : Keywords.reference? ms = Keywords.reference? ns := by
  rw [Keywords.reference?, Keywords.reference?, h.lookup_eq (by decide)]

theorem sameTypes : Option.Rel SameTypes (ms.lookup "type") (ns.lookup "type") := by
  have hrel := h.lookup "type"
  generalize ms.lookup "type" = v at hrel ⊢
  generalize ns.lookup "type" = w at hrel ⊢
  cases hrel with
  | none => exact .none
  | some hvw =>
    cases hvw with
    | types _ hsame => exact .some hsame
    | same => exact .some (.inl rfl)
    | schemas hk | items hk | itemList hk => exact absurd hk (by decide)

/-- What a keyword holds by name: the same value, or schemas that are retyped. -/
theorem members {key : String} (hkey : key = "properties" ∨ key = "$defs") :
    (ms.lookup key = ns.lookup key ∧ ∀ ds, ms.lookup key ≠ some (.obj ds)) ∨
      ∃ ds es, ms.lookup key = some (.obj ds) ∧ ns.lookup key = some (.obj es) ∧ List.Forall₂ RetypedEntry ds es := by
  have hrel := h.lookup key
  generalize ms.lookup key = v at hrel ⊢
  generalize ns.lookup key = w at hrel ⊢
  cases hrel with
  | none => exact .inl ⟨rfl, fun _ hds => by cases hds⟩
  | @some v w hvw =>
    cases hvw with
    | schemas _ h => exact .inr ⟨_, _, rfl, rfl, h⟩
    | same =>
      cases v with
      | obj ds => exact .inr ⟨ds, ds, rfl, rfl, List.forall₂_same.2 fun e _ => .entry e.1 (.same e.2)⟩
      | _ => exact .inl ⟨rfl, fun _ hds => by cases hds⟩
    | types hk | items hk | itemList hk => subst hk; exact absurd hkey (by decide)

/-- What the items are: no schema both times, schemas that are retyped, or lists of these. -/
theorem items : Option.Rel (fun v w => Retyped v w ∨ ∃ vs ws, v = .arr vs ∧ w = .arr ws ∧ List.Forall₂ Retyped vs ws)
    (ms.lookup "items") (ns.lookup "items") := by
  have hrel := h.lookup "items"
  generalize ms.lookup "items" = v at hrel ⊢
  generalize ns.lookup "items" = w at hrel ⊢
  cases hrel with
  | none => exact .none
  | some hvw =>
    refine .some ?_
    cases hvw with
    | items _ h => exact .inl h
    | itemList _ h => exact .inr ⟨_, _, rfl, rfl, h⟩
    | same => exact .inl (.same _)
    | types hk | schemas hk => exact absurd hk (by decide)

theorem isTypeless : Parser.isTypeless ms = Parser.isTypeless ns := by
  have htype : (ms.lookup "type").isNone = (ns.lookup "type").isNone := by
    have hrel := h.sameTypes
    generalize ms.lookup "type" = v at hrel ⊢
    generalize ns.lookup "type" = w at hrel ⊢
    cases hrel <;> rfl
  have hproperties : (Json.given? (ms.lookup "properties")).isSome = (Json.given? (ns.lookup "properties")).isSome := by
    rcases h.members (.inl rfl) with ⟨he, -⟩ | ⟨ds, es, hds, hes, hentries⟩
    · rw [he]
    · rw [hds, hes]
      cases hentries <;> rfl
  rw [Parser.isTypeless, Parser.isTypeless, htype, hproperties]

end RetypedSchema

/-! ## Types -/

namespace Keywords

variable {ms ns : Members}

theorem typeNames_of_listed {v : Json} {vs : List Json} (h : ms.lookup "type" = some v) (hv : listed? v = some vs) :
    typeNames ms = vs := by
  unfold typeNames
  rw [h]
  cases v with
  | arr | str => exact Option.some.inj hv
  | _ => cases hv

theorem mem_typeNames_iff (h : Option.Rel SameTypes (ms.lookup "type") (ns.lookup "type")) (x : Json) :
    x ∈ typeNames ms ↔ x ∈ typeNames ns := by
  cases hms : ms.lookup "type" with
  | none =>
    cases hns : ns.lookup "type" with
    | none => unfold typeNames; rw [hms, hns]
    | some w => rw [hms, hns] at h; cases h
  | some v =>
    cases hns : ns.lookup "type" with
    | none => rw [hms, hns] at h; cases h
    | some w =>
      rw [hms, hns] at h
      cases h with
      | some h =>
        rcases h with rfl | ⟨vs, ws, hvs, hws, hsame⟩
        · unfold typeNames; rw [hms, hns]
        · rw [typeNames_of_listed hms hvs, typeNames_of_listed hns hws]
          exact hsame x

/-- **The same set of names is the same set of types**, or both times there is one that is not supported. -/
theorem types_of_sameNames (h : ∀ x, x ∈ typeNames ms ↔ x ∈ typeNames ns) :
    ((∃ ts, types ms = .ok ts) ↔ ∃ us, types ns = .ok us) ∧
      ∀ ts us, types ms = .ok ts → types ns = .ok us → ts.Perm us := by
  constructor
  · rw [types_eq, types_eq, Parser.map_ok_iff, Parser.map_ok_iff, Parser.mapM_ok_iff, Parser.mapM_ok_iff]
    simp only [h]
  · intro ts us hts hus
    refine (List.perm_ext_iff_of_nodup (nodup_of_types hts) (nodup_of_types hus)).2 fun t => ?_
    rw [mem_types_iff hts, mem_types_iff hus]
    simp only [h]

variable {ts us : List RawType}

theorem singleton_null_iff (h : ts.Perm us) : ts = [.null] ↔ us = [.null] := by
  constructor
  · rintro rfl
    exact List.singleton_perm.1 h |>.symm
  · rintro rfl
    exact List.perm_singleton.1 h

/-- None, one or several, as a schema has of its types. -/
theorem perm_cases {α : Type} : ∀ {xs ys : List α}, xs.Perm ys →
    (xs = [] ∧ ys = []) ∨ (∃ x, xs = [x] ∧ ys = [x]) ∨
      ∃ x x' xs' y y' ys', xs = x :: x' :: xs' ∧ ys = y :: y' :: ys'
  | [], _, h => .inl ⟨rfl, List.nil_perm.1 h⟩
  | [x], _, h => .inr (.inl ⟨x, rfl, (List.singleton_perm.1 h).symm⟩)
  | _ :: _ :: _, [], h | _ :: _ :: _, [_], h => absurd h.length_eq (by simp)
  | _ :: _ :: _, _ :: _ :: _, _ => .inr (.inr ⟨_, _, _, _, _, _, rfl, rfl⟩)

theorem kindOf_perm (h : ts.Perm us) : RawType.kindOf ts = RawType.kindOf us := by
  unfold RawType.kindOf
  rcases perm_cases (h.filter (· ≠ .null)) with ⟨hts, hus⟩ | ⟨t, hts, hus⟩ | ⟨_, _, _, _, _, _, hts, hus⟩ <;>
    rw [hts, hus]

theorem admitsNull_perm (hdetails : SameDetails ms ns) (h : ts.Perm us) : admitsNull ms ts = admitsNull ns us := by
  have hcontains : ts.contains .null = us.contains .null := by
    rw [Bool.eq_iff_iff, List.contains_iff_mem, List.contains_iff_mem]
    exact h.mem_iff
  rw [admitsNull, admitsNull, hcontains, kindOf_perm h, hdetails.rawEnum]

end Keywords

end TrackingPlan
