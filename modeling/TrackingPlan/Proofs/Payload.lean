import TrackingPlan.Proofs.Node
import TrackingPlan.Proofs.Parser.Site
/-!
# Payload — the values that a schema admits, and those that a node admits

Both are told without the parser.  A schema admits a value by the type names and the values that its keywords list, and
by what the schemas in it say of the value's members or items (`Keywords.Admits`); a node does by its kind, its enum and
its nullability (`Node.Admits`).  What is read off the keywords of a schema loses none of the values that it admits:
not its types (`OfTypes.of_types`), not its enum (`Admits.among_enum?`) and not null (`Admits.nullable`).
-/
namespace TrackingPlan

/-- Whether a value is of a type; an integer is a number too. -/
def RawType.holds : RawType → Json → Bool
  | .string, .str _ | .boolean, .bool _ | .integer, .int _ | .number, .int _ | .number, .float _ | .object, .obj _
  | .array, .arr _ | .null, .null => true
  | _, _ => false

theorem RawType.eq_null_of_holds {v : Json} (h : RawType.null.holds v = true) : v = .null := by
  cases v with
  | null => rfl
  | _ => cases h

/-- Whether a value is of a kind; every value is of the kind `any`. -/
def Primitive.holds : Primitive → Json → Bool
  | .any, _ => true
  | .string, v => RawType.string.holds v
  | .boolean, v => RawType.boolean.holds v
  | .integer, v => RawType.integer.holds v
  | .number, v => RawType.number.holds v

/-- **The value is one of the enum**, by type and value, if there is an enum. -/
def Among (enum : Option (List Json)) (v : Json) : Prop := ∀ ws, enum = some ws → ∃ w ∈ ws, v.sameScalar w = true

/-- **The values that a node admits.** -/
inductive Node.Admits : Node → Json → Prop where
  | null {n} (h : n.info.isNullable = true) : Admits n .null
  | primitive {i p e v} (hkind : p.holds v = true) (henum : Among e v) : Admits (.primitive i p e) v
  | array {i n vs} (hitems : ∀ v ∈ vs, Admits n v) : Admits (.array i n) (.arr vs)
  | object {i ps ds ms}
    (hrequired : ∀ p ∈ ps, p.info.isRequired = true → ∃ k v, p.info.name = .str k ∧ ms.lookup k = some v)
    (hproperties : ∀ p ∈ ps, ∀ k v, p.info.name = .str k → ms.lookup k = some v → Admits p v) :
    Admits (.object i ps ds) (.obj ms)
  | union {i ns e n v} (hn : n ∈ ns) (h : Admits n v) (henum : Among e v) : Admits (.union i ns e) v

/-- What is written onto a node matters for null only. -/
theorem Node.Admits.withInfo {n : Node} {v : Json} (h : n.Admits v) (hv : v ≠ .null) (f : Info → Info) :
    (n.withInfo f).Admits v := by
  cases h with
  | null => exact absurd rfl hv
  | primitive hkind henum => exact .primitive hkind henum
  | array hitems => exact .array hitems
  | object hrequired hproperties => exact .object hrequired hproperties
  | union hn h henum => exact .union hn h henum

namespace Keywords

open TrackingPlan.Parser (membersIn)

/-- What `type` lists; nothing where it is absent. -/
def typeNames (ms : Members) : List Json :=
  match ms.lookup "type" with
  | none | some .null => []
  | some (.arr vs) => vs
  | some v => [v]

/-- The value is of one of the schema's types; of any where it names none. -/
def OfTypes (ms : Members) (v : Json) : Prop :=
  typeNames ms = [] ∨ ∃ s t, .str s ∈ typeNames ms ∧ RawType.ofText? s = some t ∧ t.holds v = true

/-- Whether the schema says which values there are. -/
def IsEnumerated (ms : Members) : Prop := ms.lookup "enum" ≠ none ∨ ms.lookup "const" ≠ none

/-- The value is listed by `enum`, or without one by `const`. -/
def Lists (ms : Members) (w : Json) : Prop :=
  match ms.lookup "enum" with
  | some (.arr ws) => w ∈ ws
  | some u => w = u
  | none => ms.lookup "const" = some w

/-- **The values that a schema admits.** -/
inductive Admits : Members → Json → Prop where
  | intro {ms v} (htypes : OfTypes ms v)
    (hvalues : IsEnumerated ms → ∃ w, Lists ms w ∧ v.sameScalar w = true)
    (hrequired : ∀ vs ks k, v = .obj vs → ms.lookup "required" = some (.arr ks) → .str k ∈ ks →
      ∃ w, vs.lookup k = some w)
    (hproperties : ∀ vs k is w, v = .obj vs → (k, .obj is) ∈ membersIn ms "properties" → vs.lookup k = some w →
      Admits is w)
    (hitems : ∀ vs is, v = .arr vs → ms.lookup "items" = some (.obj is) → ∀ w ∈ vs, Admits is w) : Admits ms v

/-! ## Types -/

theorem types_eq (ms : Members) : types ms = ((typeNames ms).mapM typeOf).map List.eraseDups := by
  unfold types typeNames
  cases ms.lookup "type" with
  | none => rfl
  | some v =>
    cases v with
    | null | arr => rfl
    | _ => simp only [List.mapM_cons, List.mapM_nil]; cases typeOf _ <;> rfl

theorem mem_of_mapM {α β ε : Type} {f : α → Except ε β} {b : β} : ∀ {as : List α} {bs : List β}, as.mapM f = .ok bs →
    (b ∈ bs ↔ ∃ a ∈ as, f a = .ok b)
  | [], bs, h => by
    cases h
    simp
  | a :: as, bs, h => by
    rw [List.mapM_cons] at h
    cases ha : f a with
    | error e => rw [ha] at h; cases h
    | ok c =>
      rw [ha] at h
      cases has : as.mapM f with
      | error e => rw [has] at h; cases h
      | ok cs =>
        rw [has] at h
        cases h
        simp only [List.mem_cons, mem_of_mapM has, or_and_right, exists_or, exists_eq_left, ha, Except.ok.injEq]
        exact or_congr_left eq_comm

variable {ms : Members} {ts : List RawType} {v : Json}

/-- **The types of a schema are those that it names.** -/
theorem mem_types_iff (h : types ms = .ok ts) {t : RawType} :
    t ∈ ts ↔ ∃ s, .str s ∈ typeNames ms ∧ RawType.ofText? s = some t := by
  rw [types_eq] at h
  cases hts : (typeNames ms).mapM typeOf with
  | error e => rw [hts] at h; cases h
  | ok us =>
    rw [hts] at h
    cases h
    rw [List.mem_eraseDups, mem_of_mapM hts]
    constructor
    · rintro ⟨w, hw, ht⟩
      unfold typeOf at ht
      split at ht
      · next s =>
        split at ht
        · next u hu => cases ht; exact ⟨s, hw, hu⟩
        · cases ht
      · cases ht
    · rintro ⟨s, hs, ht⟩
      exact ⟨.str s, hs, by simp only [typeOf, ht]⟩

theorem nodup_eraseDups : ∀ ts : List RawType, ts.eraseDups.Nodup
  | [] => .nil
  | t :: ts => by
    have hlen := List.length_filter_le (fun u => !u == t) ts
    rw [List.eraseDups_cons, List.nodup_cons, List.mem_eraseDups]
    exact ⟨fun h => by simpa using (List.mem_filter.1 h).2, nodup_eraseDups _⟩
termination_by ts => ts.length

/-- **The types of a schema are told once each.** -/
theorem nodup_of_types (h : types ms = .ok ts) : ts.Nodup := by
  rw [types_eq] at h
  cases hts : (typeNames ms).mapM typeOf with
  | error e => rw [hts] at h; cases h
  | ok us =>
    rw [hts] at h
    cases h
    exact nodup_eraseDups us

theorem types_of_typeNames_nil (h : types ms = .ok ts) (hnames : typeNames ms = []) : ts = [] := by
  rw [types_eq, hnames] at h
  cases h
  rfl

theorem eq_null_of_ofText? {s : String} (h : RawType.ofText? s = some .null) : s = "null" := by
  unfold RawType.ofText? at h
  split at h <;> first | rfl | cases h

/-- Null is of no types but `null`. -/
theorem OfTypes.ne_null (hv : OfTypes ms v) (hnames : typeNames ms ≠ []) (hnull : .str "null" ∉ typeNames ms) :
    v ≠ .null := by
  rintro rfl
  rcases hv with hnil | ⟨s, t, hs, ht, hholds⟩
  · exact hnames hnil
  · cases t <;> cases hholds
    rw [eq_null_of_ofText? ht] at hs
    exact hnull hs

theorem OfTypes.of_types (h : types ms = .ok ts) (hv : OfTypes ms v) : ts = [] ∨ ∃ t ∈ ts, t.holds v = true := by
  rcases hv with hnames | ⟨s, t, hs, ht, hv⟩
  · exact .inl (types_of_typeNames_nil h hnames)
  · exact .inr ⟨t, (mem_types_iff h).2 ⟨s, hs, ht⟩, hv⟩

end Keywords

/-! ## Enum -/

namespace Json

theorem sameScalar_self {v : Json} (h : v.isScalar = true) : v.sameScalar v = true := by
  cases v with
  | null => rfl
  | arr | obj => cases h
  | float x =>
    show (x.sameValue x || (x.isNaN && x.isNaN)) = true
    unfold Double.sameValue
    cases x.isNaN <;> simp
  | _ => exact beq_self_eq_true _

theorem sameScalar_trans {u v w : Json} (h : u.sameScalar v = true) (h' : v.sameScalar w = true) :
    u.sameScalar w = true := by
  cases u with
  | null => cases v with | null => exact h' | _ => cases h
  | bool a => cases v with | bool b => cases beq_iff_eq.1 h; exact h' | _ => cases h
  | int a => cases v with | int b => cases beq_iff_eq.1 h; exact h' | _ => cases h
  | str a => cases v with | str b => cases beq_iff_eq.1 h; exact h' | _ => cases h
  | float x =>
    cases v with
    | float y =>
      cases w with
      | float z =>
        -- either the same number or both none
        simp only [sameScalar, Double.sameValue, Bool.or_eq_true, Bool.and_eq_true, Bool.not_eq_true', beq_iff_eq]
          at h h' ⊢
        grind
      | _ => cases h'
    | _ => cases h
  | arr | obj => cases h

theorem eq_null_of_sameScalar {w : Json} (h : Json.null.sameScalar w = true) : w = .null := by
  cases w with
  | null => rfl
  | _ => cases h

end Json

namespace Keywords

/-- What is left of a list still has each of its values. -/
theorem distinctFrom_covers {w : Json} (hscalar : w.isScalar = true) : ∀ {seen vs : List Json}, w ∈ vs →
    (∃ u ∈ seen, w.sameScalar u = true) ∨ ∃ u ∈ distinctFrom seen vs, w.sameScalar u = true
  | seen, v :: vs, hw => by
    rw [distinctFrom]
    rcases List.mem_cons.1 hw with rfl | hw
    · split
      · next hseen => exact .inl (List.any_eq_true.1 hseen)
      · exact .inr ⟨w, List.mem_cons_self, Json.sameScalar_self hscalar⟩
    · split
      · exact distinctFrom_covers hscalar hw
      · rcases distinctFrom_covers hscalar hw with ⟨u, hu, hwu⟩ | ⟨u, hu, hwu⟩
        · rcases List.mem_cons.1 hu with rfl | hu
          · exact .inr ⟨_, List.mem_cons_self, hwu⟩
          · exact .inl ⟨u, hu, hwu⟩
        · exact .inr ⟨u, List.mem_cons_of_mem _ hu, hwu⟩

theorem scalars_covers {w : Json} {vs : List Json} (hscalar : w.isScalar = true) (hw : w ∈ vs) :
    ∃ u ∈ scalars vs, w.sameScalar u = true := by
  have hmem : w ∈ vs.filter Json.isScalar := List.mem_filter.2 ⟨hw, hscalar⟩
  have hcovers : (∃ u ∈ ([] : List Json), w.sameScalar u = true) ∨ ∃ u ∈ scalars vs, w.sameScalar u = true :=
    distinctFrom_covers hscalar hmem
  simpa using hcovers

variable {ms : Members} {v : Json}

theorem Admits.ofTypes (h : Admits ms v) : OfTypes ms v := by
  cases h with
  | intro htypes => exact htypes

theorem lists_iff {vs : List Json} (h : rawEnum ms = some vs) {w : Json} : Lists ms w ↔ w ∈ vs := by
  unfold rawEnum at h
  unfold Lists
  cases hl : ms.lookup "enum" with
  | some u =>
    rw [hl] at h
    cases u with
    | arr us => cases h; exact Iff.rfl
    | _ => cases h; exact List.mem_singleton.symm
  | none =>
    rw [hl] at h
    cases hc : ms.lookup "const" with
    | none => rw [hc] at h; cases h
    | some u =>
      rw [hc] at h
      cases h
      show some u = some w ↔ w ∈ [u]
      rw [List.mem_singleton, Option.some.injEq, eq_comm]

theorem isEnumerated_of_rawEnum {vs : List Json} (h : rawEnum ms = some vs) : IsEnumerated ms := by
  cases henum : ms.lookup "enum" with
  | some u => exact .inl (henum ▸ Option.some_ne_none u)
  | none =>
    cases hconst : ms.lookup "const" with
    | some u => exact .inr (hconst ▸ Option.some_ne_none u)
    | none =>
      rw [rawEnum, henum, hconst] at h
      cases h

/-- A value that the schema admits is the same as one of the enum as written. -/
theorem Admits.mem_rawEnum (h : Admits ms v) {vs : List Json} (hvs : rawEnum ms = some vs) :
    ∃ w ∈ vs, v.sameScalar w = true := by
  cases h with
  | intro _ hvalues =>
    obtain ⟨w, hw, hvw⟩ := hvalues (isEnumerated_of_rawEnum hvs)
    exact ⟨w, (lists_iff hvs).1 hw, hvw⟩

/-- **The enum of a node has every value that its schema admits**, its values being scalars. -/
theorem Admits.among_enum? (h : Admits ms v) (hscalar : ∀ w, Lists ms w → w.isScalar = true) : Among (enum? ms) v := by
  intro ws hws
  unfold enum? at hws
  split at hws
  · next vs hvs =>
    split at hws
    · cases hws
    · cases hws
      obtain ⟨w, hw, hvw⟩ := h.mem_rawEnum hvs
      obtain ⟨u, hu, hwu⟩ := scalars_covers (hscalar w ((lists_iff hvs).2 hw)) hw
      exact ⟨u, hu, Json.sameScalar_trans hvw hwu⟩
  · cases hws

/-- **A node is nullable where its schema admits null.** -/
theorem Admits.nullable (h : Admits ms .null) {ts : List RawType} (hts : types ms = .ok ts) :
    admitsNull ms ts = true := by
  have htypes : (ts.contains .null || RawType.kindOf ts == .primitive .any) = true := by
    rcases h.ofTypes.of_types hts with rfl | ⟨t, ht, hnull⟩
    · rfl
    · cases t <;> cases hnull
      rw [List.contains_iff_mem.2 ht]
      rfl
  unfold admitsNull
  rw [htypes, Bool.true_and]
  split
  · next vs hvs =>
    obtain ⟨w, hw, hnull⟩ := h.mem_rawEnum hvs
    cases Json.eq_null_of_sameScalar hnull
    exact List.any_eq_true.2 ⟨.null, hw, rfl⟩
  · rfl

end Keywords
end TrackingPlan
