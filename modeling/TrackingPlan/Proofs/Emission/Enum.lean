import TrackingPlan.Emission.Client
import TrackingPlan.Proofs.Json.Text
import TrackingPlan.Proofs.Number.Numeral
import TrackingPlan.Proofs.Text.Separated
/-!
# Enum — an enum's id is its values

The text of an enum shows each value behind the name of its type.  Within a type no value's text begins another's up to
the bracket behind it (`scalar_append_inj`), so neither does that of a value with its type; hence enums with one text
have the same values in the same order (`enumText_injective`), and that is when they share an id (`enumId_eq_iff`).
-/
namespace TrackingPlan
namespace Json

/-- What an enum can list: values without members, but nothing that is no number. -/
def IsListed : Json → Prop
  | .arr _ | .obj _ => False
  | .float x => x.isNaN = false
  | _ => True

/-- One type and one value, and the same numeral for numbers with a point. -/
def SameListed : Json → Json → Prop
  | .null, .null => True
  | .bool a, .bool b => a = b
  | .int m, .int n => m = n
  | .float x, .float y => Numeral.double .literal x = Numeral.double .literal y
  | .str s, .str t => s = t
  | _, _ => False

theorem sameListed_iff {v w : Json} (hv : v.IsListed) (hw : w.IsListed) : SameListed v w ↔ v = w := by
  cases v <;> cases w <;> try first | exact hv.elim | exact hw.elim
  all_goals simp only [SameListed, reduceCtorEq, bool.injEq, int.injEq, str.injEq, float.injEq]
  next x y => exact ⟨Numeral.double_injective Numeral.Style.literal_isApart hv hw, congrArg _⟩

theorem eq_of_sameListed {vs ws : List Json} (hvs : ∀ v ∈ vs, v.IsListed) (hws : ∀ w ∈ ws, w.IsListed)
    (h : List.Forall₂ SameListed vs ws) : vs = ws := by
  induction h with
  | nil => rfl
  | cons hvw hrest ih =>
    rw [(sameListed_iff (hvs _ List.mem_cons_self) (hws _ List.mem_cons_self)).1 hvw,
      ih (fun v hv => hvs v (List.mem_cons_of_mem _ hv)) (fun w hw => hws w (List.mem_cons_of_mem _ hw))]

theorem bracket_not_mem_double {x : Double} (hx : x.isNaN = false) : ']' ∉ Numeral.double .json x := fun h => by
  rcases Numeral.mem_double hx h with h | h
  · revert h
    unfold Numeral.IsNumeral
    decide
  · revert h
    decide

/-- **A value can be told from its text up to the bracket**, if its type is known. -/
theorem scalar_append_inj {v w : Json} {r s : List Char} (hv : v.IsListed) (hw : w.IsListed)
    (htype : v.typeName = w.typeName) (h : scalarChars v ++ ']' :: r = scalarChars w ++ ']' :: s) : v = w ∧ r = s := by
  cases v <;> cases w <;> try first | exact hv.elim | exact hw.elim | (simp [typeName] at htype; done)
  case null.null => exact ⟨rfl, (List.cons.inj (List.append_cancel_left h)).2⟩
  case bool.bool a b =>
    cases a <;> cases b <;> simp only [scalarChars] at h
    · exact ⟨rfl, (List.cons.inj (List.append_cancel_left h)).2⟩
    · exact absurd (List.cons.inj h).1 (by decide)
    · exact absurd (List.cons.inj h).1 (by decide)
    · exact ⟨rfl, (List.cons.inj (List.append_cancel_left h)).2⟩
  case int.int m n =>
    have hno : ∀ k, ']' ∉ Numeral.intDigits k := Numeral.not_mem_intDigits rfl (by decide)
    exact (append_mark_inj (hno m) (hno n) h).imp_left fun hmn => congrArg _ (Numeral.intDigits_injective hmn)
  case float.float x y =>
    exact (append_mark_inj (bracket_not_mem_double hv) (bracket_not_mem_double hw) h).imp_left fun hxy =>
      congrArg _ (Numeral.double_injective Numeral.Style.json_isApart hv hw hxy)
  case str.str t u =>
    exact (textChars_append_inj h).imp (congrArg _) fun hrs => (List.cons.inj hrs).2

/-! ## Enums -/

theorem typed_chars {v : Json} (hv : v.IsListed) : compactChars (Client.typed v) =
    '[' :: (textChars v.typeName ++ ',' :: ' ' :: (scalarChars v ++ [']'])) := by
  have hscalar : compactChars v = scalarChars v := by cases v <;> first | exact hv.elim | rfl
  rw [Client.typed, compactChars, compactItems, compactItems, compactItems, hscalar]
  simp [List.intercalate_cons_cons, compactChars, scalarChars]

/-- No value's text with its type begins another's. -/
theorem delimited_typed : Delimited IsListed fun v => compactChars (Client.typed v) := by
  intro v w r s hv hw h
  simp only [typed_chars hv, typed_chars hw, List.cons_append, List.append_assoc, List.cons.injEq, true_and,
    List.nil_append] at h
  obtain ⟨htype, hvalue⟩ := textChars_append_inj h
  exact scalar_append_inj hv hw htype (List.cons.inj (List.cons.inj hvalue).2).2

/-- What stands behind the bracket of a list. -/
def behindBracket : List Json → List Char
  | [] => [']']
  | v :: vs => compactChars (Client.typed v) ++ further (fun v => compactChars (Client.typed v)) ']' vs

theorem compactItems_map (f : Json → Json) (vs : List Json) :
    compactItems (vs.map f) = vs.map fun v => compactChars (f v) := by
  induction vs with
  | nil => rfl
  | cons v vs ih => rw [List.map_cons, compactItems, ih, List.map_cons]

theorem compactChars_typed (vs : List Json) : compactChars (.arr (vs.map Client.typed)) = '[' :: behindBracket vs := by
  rw [compactChars, compactItems_map]
  cases vs with
  | nil => rfl
  | cons v vs => exact congrArg _ (intercalate_eq_further _ ']' v vs)

theorem behindBracket_injective : ∀ {vs ws : List Json}, (∀ v ∈ vs, v.IsListed) → (∀ w ∈ ws, w.IsListed) →
    behindBracket vs = behindBracket ws → vs = ws
  | [], [], _, _, _ => rfl
  | [], w :: _, _, hws, h => by
    rw [behindBracket, behindBracket, typed_chars (hws w List.mem_cons_self)] at h
    cases h
  | v :: _, [], hvs, _, h => by
    rw [behindBracket, behindBracket, typed_chars (hvs v List.mem_cons_self)] at h
    cases h
  | v :: vs, w :: ws, hvs, hws, h => by
    obtain ⟨hvw, hrest⟩ := delimited_typed (hvs v List.mem_cons_self) (hws w List.mem_cons_self) h
    rw [hvw, further_injective delimited_typed (by decide) (fun u hu => hvs u (List.mem_cons_of_mem _ hu))
      (fun u hu => hws u (List.mem_cons_of_mem _ hu)) hrest]

end Json

namespace Client

open Json

variable {c c' : Client} {n m : Node} {e f : List Json}

/-- **Enums with one text have the same values.** -/
theorem enumText_injective (he : ∀ v ∈ e, v.IsListed) (hf : ∀ v ∈ f, v.IsListed) (h : enumText e = enumText f) :
    e = f := by
  have hchars := String.ofList_injective ((String.append_right_inj _).1 h)
  rw [compactChars_typed, compactChars_typed] at hchars
  exact behindBracket_injective he hf (List.cons.inj hchars).2

theorem enumId_of_shared (hc : c.options.uniqueEnums.isGiven = true) (hn : n.enum? = some e) (defaultId : String) :
    c.enumId n defaultId = .ok (enumText e) := by
  have henum : enumOf n = .ok (some e) := by
    cases n <;> first | exact congrArg Except.ok hn | cases hn
  rw [enumId, if_pos hc, henum]
  rfl

/-- **Nodes whose enums are shared have one id exactly when their enums are the same**: as long, and at each place
values of one type and one value. -/
theorem enumId_eq_iff (hc : c.options.uniqueEnums.isGiven = true) (hc' : c'.options.uniqueEnums.isGiven = true)
    (hn : n.enum? = some e) (hm : m.enum? = some f) (he : ∀ v ∈ e, v.IsListed) (hf : ∀ v ∈ f, v.IsListed)
    (defaultId defaultId' : String) :
    ∃ id id', c.enumId n defaultId = .ok id ∧ c'.enumId m defaultId' = .ok id' ∧
      (id = id' ↔ List.Forall₂ SameListed e f) := by
  refine ⟨_, _, enumId_of_shared hc hn defaultId, enumId_of_shared hc' hm defaultId', fun h => ?_, fun h => ?_⟩
  · rw [enumText_injective he hf h]
    exact List.forall₂_same.2 fun v hv => (sameListed_iff (hf v hv) (hf v hv)).2 rfl
  · rw [eq_of_sameListed he hf h]

/-- A text that looks like further values, and zeros of either sign. -/
theorem enumId_eq_iff_of_zeros :
    let c : Client := ⟨{ uniqueEnums := .bool true }, []⟩
    let n : Node := .primitive {} .any (some [.str "a\"], [\"float\", 0.0", .float (.zero false)])
    let m : Node := .union {} [] (some [.str "a\"], [\"float\", 0.0", .float (.zero true)])
    ∃ id id', c.enumId n "n" = .ok id ∧ c.enumId m "m" = .ok id' ∧ id ≠ id' := by
  intro c n m
  have hlisted : ∀ negative, ∀ v ∈ [.str "a\"], [\"float\", 0.0", .float (.zero negative)], IsListed v := by
    intro negative v hv
    rcases List.mem_cons.1 hv with rfl | hv
    · trivial
    · rw [List.mem_singleton.1 hv]
      exact rfl
  have hc : c.options.uniqueEnums.isGiven = true := rfl
  have hn : n.enum? = some [.str "a\"], [\"float\", 0.0", .float (.zero false)] := rfl
  have hm : m.enum? = some [.str "a\"], [\"float\", 0.0", .float (.zero true)] := rfl
  obtain ⟨id, id', hid, hid', hiff⟩ := enumId_eq_iff hc hc hn hm (hlisted false) (hlisted true) "n" "m"
  refine ⟨id, id', hid, hid', fun heq => ?_⟩
  cases hiff.1 heq with
  | cons _ hrest => cases hrest with
    | cons hzero _ =>
      have hnumerals : Numeral.double .literal (.zero false) = Numeral.double .literal (.zero true) := hzero
      exact absurd hnumerals (by decide)

end Client
end TrackingPlan
