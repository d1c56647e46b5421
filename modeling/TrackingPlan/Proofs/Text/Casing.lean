import Mathlib
import TrackingPlan.Naming.Dialect
import TrackingPlan.Proofs.Text.Words
/-!
# Casing — a style forgets only the case of letters

A style depends on a text through its words alone (`apply_eq_written`), and on those up to the case of their letters
(`written_map`).  Words with underscores between them are split into just these words again (`words_underscored`), so a
text in snake case, small or capital, has in every style the form of the text itself (`conversions_agree`).

What a change of case makes of one character, the library knows (`Char.isLower_toLower_eq_isAlpha` and its siblings); no
module of Mathlib but the whole brings these lemmas with it.
-/
namespace TrackingPlan
namespace Casing

open Words (IsWord isWordChar words)

variable {w : List Char} {ws : List (List Char)} {f : List Char → List Char}

/-! ## The case of letters -/

/-- The words of a text in a style. -/
def written : Casing → List (List Char) → List Char
  | .pascal, ws => pascalWords ws
  | .camel, ws => camelWords ws
  | .upperCamel, ws => upperFirst (camelWords ws)
  | .snake, ws => underscored (ws.map lowered)
  | .screamingSnake, ws => underscored (ws.map uppered)

theorem apply_eq_written (style : Casing) (cs : List Char) : style.apply cs = style.written (words cs) := by
  cases style <;> rfl

/-- **A change that only the case of letters shows.** -/
structure Recases (f : List Char → List Char) : Prop where
  lowered (w : List Char) : lowered (f w) = lowered w
  uppered (w : List Char) : uppered (f w) = uppered w
  capitalized (w : List Char) : capitalized (f w) = capitalized w

theorem recases_lowered : Recases lowered where
  lowered w := by simp [lowered]
  uppered w := by simp [uppered, lowered]
  capitalized w := by cases w <;> simp [capitalized, lowered]

theorem recases_uppered : Recases uppered where
  lowered w := by simp [uppered, lowered]
  uppered w := by simp [uppered]
  capitalized w := by cases w <;> simp [capitalized, uppered, lowered]

/-- **The case of letters does not show in any style.** -/
theorem written_map (hf : Recases f) (style : Casing) (ws : List (List Char)) :
    style.written (ws.map f) = style.written ws := by
  have hpascal : ∀ ws : List (List Char), pascalWords (ws.map f) = pascalWords ws := fun ws => by
    simp only [pascalWords, List.flatMap_map, hf.capitalized]
  have hcamel : camelWords (ws.map f) = camelWords ws := by
    cases ws with
    | nil => rfl
    | cons w ws => rw [List.map_cons, camelWords, camelWords, hf.lowered, hpascal]
  cases style with
  | pascal => exact hpascal ws
  | camel => exact hcamel
  | upperCamel => exact congrArg upperFirst hcamel
  | snake => simp only [written, List.map_map, Function.comp_def, hf.lowered]
  | screamingSnake => simp only [written, List.map_map, Function.comp_def, hf.uppered]

/-! ## Words with underscores between them -/

theorem isLower_toLower {c : Char} (h : c.isUpper = true ∨ c.isLower = true) : c.toLower.isLower = true := by
  rw [Char.isLower_toLower_eq_isAlpha, Char.isAlpha, Bool.or_eq_true]
  exact h

theorem isUpper_toUpper {c : Char} (h : c.isUpper = true ∨ c.isLower = true) : c.toUpper.isUpper = true := by
  rw [Char.isUpper_toUpper_eq_isAlpha, Char.isAlpha, Bool.or_eq_true]
  exact h

theorem isDigit_toLower {c : Char} (h : c.isDigit = true) : c.toLower.isDigit = true := by
  rw [Char.toLower_eq_of_not_isUpper (Bool.eq_false_iff.1 (Words.not_isUpper_of_isDigit h))]
  exact h

theorem isDigit_toUpper {c : Char} (h : c.isDigit = true) : c.toUpper.isDigit = true := by
  rw [Char.toUpper_eq_of_not_isLower (Bool.eq_false_iff.1 (Words.not_isLower_of_isDigit h))]
  exact h

theorem isWord_lowered (h : IsWord w) : IsWord (lowered w) := by
  cases w with
  | nil => exact h
  | cons c w =>
    simp only [lowered, List.map_cons, IsWord, List.forall_mem_map] at h ⊢
    rcases h with ⟨hc, hw⟩ | ⟨hc, hw⟩ | ⟨hc, hw⟩
    · exact .inr (.inl ⟨.inr (isLower_toLower (.inl hc)), fun d hd => isLower_toLower (.inl (hw d hd))⟩)
    · exact .inr (.inl ⟨.inr (isLower_toLower hc), fun d hd => isLower_toLower (.inr (hw d hd))⟩)
    · exact .inr (.inr ⟨isDigit_toLower hc, fun d hd => isDigit_toLower (hw d hd)⟩)

theorem isWord_uppered (h : IsWord w) : IsWord (uppered w) := by
  cases w with
  | nil => exact h
  | cons c w =>
    simp only [uppered, List.map_cons, IsWord, List.forall_mem_map] at h ⊢
    rcases h with ⟨hc, hw⟩ | ⟨hc, hw⟩ | ⟨hc, hw⟩
    · exact .inl ⟨isUpper_toUpper (.inl hc), fun d hd => isUpper_toUpper (.inl (hw d hd))⟩
    · exact .inl ⟨isUpper_toUpper hc, fun d hd => isUpper_toUpper (.inr (hw d hd))⟩
    · exact .inr (.inr ⟨isDigit_toUpper hc, fun d hd => isDigit_toUpper (hw d hd)⟩)

/-- Between words with underscores in between there is nothing else. -/
theorem exists_layout_underscored : ∀ {ws : List (List Char)}, (∀ w ∈ ws, IsWord w) →
    ∃ parts, Words.Layout (underscored ws) [] parts ∧ parts.map Prod.fst = ws
  | [], _ => ⟨[], .nil, rfl⟩
  | [w], h => by
    have hlayout := Words.Layout.nil.word (h w List.mem_cons_self) (fun _ => rfl) (fun _ _ _ _ he => by cases he)
    rw [List.append_nil] at hlayout
    exact ⟨[(w, [])], by rw [underscored, List.intercalate_singleton]; exact hlayout, rfl⟩
  | w :: v :: ws, h => by
    rw [List.forall_mem_cons] at h
    obtain ⟨parts, hlayout, hparts⟩ := exists_layout_underscored h.2
    refine ⟨(w, ['_']) :: parts, ?_, by rw [List.map_cons, hparts]⟩
    rw [underscored, List.intercalate_cons_cons, List.append_assoc]
    exact (hlayout.skip (by decide)).word h.1 (fun _ => rfl) (fun he => by cases he)

/-- **Words with underscores between them are split into these words.** -/
theorem words_underscored (h : ∀ w ∈ ws, IsWord w) : words (underscored ws) = ws := by
  obtain ⟨parts, hlayout, hparts⟩ := exists_layout_underscored h
  rw [hlayout.words_eq, hparts]

theorem isWord_of_mem_words {cs : List Char} (h : w ∈ words cs) : IsWord w := by
  obtain ⟨lead, parts, hlayout⟩ := Words.exists_layout cs
  rw [hlayout.words_eq] at h
  obtain ⟨p, hp, rfl⟩ := List.mem_map.1 h
  exact hlayout.isWord p hp

/-- **A text whose words are written anew, in another case, between underscores has the form of the old one.** -/
theorem apply_underscored (hf : Recases f) (hword : ∀ w, IsWord w → IsWord (f w)) (style : Casing) (cs : List Char) :
    style.apply (underscored ((words cs).map f)) = style.apply cs := by
  have hwords : words (underscored ((words cs).map f)) = (words cs).map f :=
    words_underscored (List.forall_mem_map.2 fun w hw => hword w (isWord_of_mem_words hw))
  rw [apply_eq_written, hwords, written_map hf, ← apply_eq_written]

/-! ## The first letter -/

theorem upper_of_isWordChar {c : Char} (h : isWordChar c = true) : Unicode.upper c = [c.toUpper] := by
  refine if_pos ?_
  simp only [isWordChar, Bool.or_eq_true, Words.isUpper_iff, Words.isLower_iff, Words.isDigit_iff] at h
  have hend : (0x80 : UInt32).toNat = 128 := rfl
  rw [UInt32.lt_iff_toNat_lt, Char.toNat_val]
  omega

theorem upperFirst_camelWords (h : ∀ w ∈ ws, IsWord w) : upperFirst (camelWords ws) = pascalWords ws := by
  cases ws with
  | nil => rfl
  | cons w ws =>
    have hw := isWord_lowered (h w List.mem_cons_self)
    cases w with
    | nil => exact hw.elim
    | cons c w =>
      have hc := upper_of_isWordChar (hw.isWordChar _ List.mem_cons_self)
      simp [camelWords, pascalWords, upperFirst, lowered, capitalized, hc]

/-- What is given a name in PascalCase in each language: a type or a class. -/
def typeSymbol : Language → Symbol
  | .typescript | .javascript => .typeName
  | .kotlin | .python | .csharp => .className

theorem toList_convert (style : Casing) (t : String) : (style.convert t).toList = style.apply t.toList :=
  String.toList_ofList

theorem upperCamel_eq_pascal (t : String) : upperCamel.convert t = pascal.convert t :=
  congrArg String.ofList (upperFirst_camelWords fun _ => isWord_of_mem_words)

/-- **The styles agree**: every style writes a text in snake case, small or capital, as it writes the text itself, and
camel case with a capital in front is PascalCase.  So all languages have one PascalCase. -/
theorem conversions_agree (t : String) :
    (∀ style : Casing, style.convert (snake.convert t) = style.convert t ∧
      style.convert (screamingSnake.convert t) = style.convert t) ∧
    String.ofList (upperFirst (camel.convert t).toList) = pascal.convert t ∧
    ∀ l : Language, ((Dialect.ofLanguage l).casing (typeSymbol l)).map (·.convert t) = some (pascal.convert t) ∧
      ((Dialect.ofLanguage l).casing .enumName).map (·.convert t) = some (pascal.convert t) := by
  refine ⟨fun style => ⟨?_, ?_⟩, ?_, fun l => ?_⟩
  · rw [convert, toList_convert]
    exact congrArg String.ofList (apply_underscored recases_lowered (fun _ => isWord_lowered) style t.toList)
  · rw [convert, toList_convert]
    exact congrArg String.ofList (apply_underscored recases_uppered (fun _ => isWord_uppered) style t.toList)
  · rw [toList_convert]
    exact upperCamel_eq_pascal t
  · have hsame : some (upperCamel.convert t) = some (pascal.convert t) := congrArg some (upperCamel_eq_pascal t)
    cases l with
    | typescript | javascript | kotlin => exact ⟨hsame, hsame⟩
    | python | csharp => exact ⟨rfl, rfl⟩

/-- The words of mixed sorts, from the text and from its capital snake case. -/
example : camel.convert "parseXMLHttp2ndÄrger" = "parseXmlHttp2NdRger" ∧
    camel.convert "PARSE_XML_HTTP_2_ND_RGER" = "parseXmlHttp2NdRger" := by decide +kernel

end Casing
end TrackingPlan
