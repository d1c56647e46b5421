import TrackingPlan.Text.Words
/-!
# Words — where a text is split, and that nothing is lost

A `Layout` of a text is what stands before its first word, and each word with what stands behind it.  Between two
neighbouring characters a word goes on exactly when the two are `joined` (`isWord_cons_of_joined`, `joined_of_isWord`),
so every text has a layout (`exists_layout`), and the words of a layout are those that the text is split into
(`Layout.words_eq`).
-/
namespace TrackingPlan
namespace Words

variable {a b c : Char} {w v cs rest : List Char}

/-! ## Classes of characters -/

theorem isUpper_iff : c.isUpper = true ↔ 65 ≤ c.toNat ∧ c.toNat ≤ 90 := by
  rw [show c.isUpper = decide ('A'.val ≤ c.val ∧ c.val ≤ 'Z'.val) from rfl, decide_eq_true_eq,
    UInt32.le_iff_toNat_le, UInt32.le_iff_toNat_le]
  exact Iff.rfl

theorem isLower_iff : c.isLower = true ↔ 97 ≤ c.toNat ∧ c.toNat ≤ 122 := by
  rw [show c.isLower = (decide ('a'.val ≤ c.val) && decide (c.val ≤ 'z'.val)) from rfl, Bool.and_eq_true,
    decide_eq_true_eq, decide_eq_true_eq, UInt32.le_iff_toNat_le, UInt32.le_iff_toNat_le]
  exact Iff.rfl

theorem isDigit_iff : c.isDigit = true ↔ 48 ≤ c.toNat ∧ c.toNat ≤ 57 := Char.isDigit_iff_toNat

theorem not_isLower_of_isUpper (h : c.isUpper = true) : c.isLower = false := by
  rw [isUpper_iff] at h
  rw [Bool.eq_false_iff, ne_eq, isLower_iff]
  omega

theorem not_isLower_of_isDigit (h : c.isDigit = true) : c.isLower = false := by
  rw [isDigit_iff] at h
  rw [Bool.eq_false_iff, ne_eq, isLower_iff]
  omega

theorem not_isUpper_of_isDigit (h : c.isDigit = true) : c.isUpper = false := by
  rw [isDigit_iff] at h
  rw [Bool.eq_false_iff, ne_eq, isUpper_iff]
  omega

/-! ## Words -/

/-- **A word**: capitals, small letters with at most one capital in front, or digits. -/
def IsWord : List Char → Prop
  | [] => False
  | c :: cs => (c.isUpper = true ∧ ∀ d ∈ cs, d.isUpper = true) ∨
      ((c.isUpper = true ∨ c.isLower = true) ∧ ∀ d ∈ cs, d.isLower = true) ∨
      (c.isDigit = true ∧ ∀ d ∈ cs, d.isDigit = true)

theorem joined_iff {after : List Char} : joined a b after = true ↔ (a.isDigit = true ∧ b.isDigit = true) ∨
    ((a.isUpper = true ∨ a.isLower = true) ∧ b.isLower = true) ∨
    (a.isUpper = true ∧ b.isUpper = true ∧ startsLower after = false) := by
  simp only [joined, Bool.or_eq_true, Bool.and_eq_true, Bool.not_eq_true', or_assoc, and_assoc]

theorem isWordChar_of_joined {after : List Char} (h : joined a b after = true) :
    isWordChar a = true ∧ isWordChar b = true := by
  simp only [isWordChar, Bool.or_eq_true]
  rcases joined_iff.1 h with ⟨ha, hb⟩ | ⟨ha, hb⟩ | ⟨ha, hb, -⟩
  · exact ⟨.inr ha, .inr hb⟩
  · exact ⟨.inl ha, .inl (.inr hb)⟩
  · exact ⟨.inl (.inl ha), .inl (.inl hb)⟩

theorem IsWord.isWordChar (h : IsWord w) : ∀ c ∈ w, isWordChar c = true := by
  cases w with
  | nil => exact h.elim
  | cons a w =>
    simp only [Words.isWordChar, Bool.or_eq_true, List.forall_mem_cons]
    rcases h with ⟨ha, hw⟩ | ⟨ha, hw⟩ | ⟨ha, hw⟩
    · exact ⟨.inl (.inl ha), fun c hc => .inl (.inl (hw c hc))⟩
    · exact ⟨.inl ha, fun c hc => .inl (.inr (hw c hc))⟩
    · exact ⟨.inr ha, fun c hc => .inr (hw c hc)⟩

theorem isWord_singleton (h : isWordChar a = true) : IsWord [a] := by
  simp only [isWordChar, Bool.or_eq_true] at h
  rcases h with h | h
  · exact .inr (.inl ⟨h, fun _ hd => absurd hd List.not_mem_nil⟩)
  · exact .inr (.inr ⟨h, fun _ hd => absurd hd List.not_mem_nil⟩)

theorem IsWord.tail (h : IsWord (a :: b :: w)) : IsWord (b :: w) := by
  simp only [IsWord, List.forall_mem_cons] at h ⊢
  rcases h with ⟨-, h⟩ | ⟨-, hb, h⟩ | ⟨-, h⟩
  · exact .inl h
  · exact .inr (.inl ⟨.inr hb, h⟩)
  · exact .inr (.inr h)

/-- A word with a capital behind its first character is all capitals. -/
theorem IsWord.isUpper (h : IsWord (a :: b :: w)) (hb : b.isUpper = true) : ∀ c ∈ a :: b :: w, c.isUpper = true := by
  simp only [IsWord, List.forall_mem_cons] at h ⊢
  rcases h with h | ⟨-, hlow, -⟩ | ⟨-, hdigit, -⟩
  · exact h
  · exact absurd hlow (Bool.eq_false_iff.1 (not_isLower_of_isUpper hb))
  · exact absurd hb (Bool.eq_false_iff.1 (not_isUpper_of_isDigit hdigit))

/-- A word goes on to the left over a joined pair. -/
theorem isWord_cons_of_joined (h : IsWord (b :: w)) (hj : joined a b (w ++ rest) = true) : IsWord (a :: b :: w) := by
  simp only [IsWord, List.forall_mem_cons] at h ⊢
  rcases joined_iff.1 hj with ⟨ha, hb⟩ | ⟨ha, hb⟩ | ⟨ha, hb, hlow⟩
  · simp only [hb, not_isLower_of_isDigit hb, not_isUpper_of_isDigit hb, Bool.false_eq_true, false_or, false_and,
      true_and] at h
    exact .inr (.inr ⟨ha, hb, h⟩)
  · rcases h with ⟨hup, -⟩ | ⟨-, h⟩ | ⟨hdigit, -⟩
    · exact absurd hb (Bool.eq_false_iff.1 (not_isLower_of_isUpper hup))
    · exact .inr (.inl ⟨ha, hb, h⟩)
    · exact absurd hb (Bool.eq_false_iff.1 (not_isLower_of_isDigit hdigit))
  · rcases h with h | ⟨-, h⟩ | ⟨hdigit, -⟩
    · exact .inl ⟨ha, h⟩
    · -- no small letter may come behind the second capital
      cases w with
      | nil => exact .inl ⟨ha, hb, fun _ hd => absurd hd List.not_mem_nil⟩
      | cons c w => exact absurd (h c List.mem_cons_self) (Bool.eq_false_iff.1 hlow)
    · exact absurd hb (Bool.eq_false_iff.1 (not_isUpper_of_isDigit hdigit))

/-- Within a word any two neighbours are joined, if no small letter comes behind it when it is all capitals. -/
theorem joined_of_isWord (h : IsWord (a :: b :: w))
    (hrest : (∀ c ∈ a :: b :: w, c.isUpper = true) → startsLower rest = false) : joined a b (w ++ rest) = true := by
  simp only [IsWord, List.forall_mem_cons] at h hrest
  refine joined_iff.2 ?_
  rcases h with ⟨ha, hb, h⟩ | ⟨ha, hb, -⟩ | ⟨ha, hb, -⟩
  · refine .inr (.inr ⟨ha, hb, ?_⟩)
    cases w with
    | nil => exact hrest ⟨ha, hb, h⟩
    | cons c w => exact not_isLower_of_isUpper (h c List.mem_cons_self)
  · exact .inr (.inl ⟨ha, hb⟩)
  · exact .inl ⟨ha, hb⟩

/-- Two words that share a character are one, unless small letters come behind capitals. -/
theorem IsWord.append (h : IsWord (w ++ [a])) (hv : IsWord (a :: v))
    (hlow : (∀ c ∈ w ++ [a], c.isUpper = true) → startsLower v = false) : IsWord (w ++ a :: v) := by
  cases w with
  | nil => exact hv
  | cons c w =>
    simp only [IsWord, List.cons_append, List.forall_mem_append, List.forall_mem_cons] at h hv hlow ⊢
    rcases h with ⟨hc, hw, ha, -⟩ | ⟨hc, hw, ha, -⟩ | ⟨hc, hw, ha, -⟩
    · have hnil : ∀ d ∈ ([] : List Char), d.isUpper = true := fun _ hd => absurd hd List.not_mem_nil
      rcases hv with ⟨-, hv⟩ | ⟨-, hv⟩ | ⟨hdigit, -⟩
      · exact .inl ⟨hc, hw, ha, hv⟩
      · cases v with
        | nil => exact .inl ⟨hc, hw, ha, hnil⟩
        | cons d v => exact absurd (hv d List.mem_cons_self) (Bool.eq_false_iff.1 (hlow ⟨hc, hw, ha, hnil⟩))
      · exact absurd ha (Bool.eq_false_iff.1 (not_isUpper_of_isDigit hdigit))
    · rcases hv with ⟨hup, -⟩ | ⟨-, hv⟩ | ⟨hdigit, -⟩
      · exact absurd ha (Bool.eq_false_iff.1 (not_isLower_of_isUpper hup))
      · exact .inr (.inl ⟨hc, hw, ha, hv⟩)
      · exact absurd ha (Bool.eq_false_iff.1 (not_isLower_of_isDigit hdigit))
    · simp only [ha, not_isLower_of_isDigit ha, not_isUpper_of_isDigit ha, Bool.false_eq_true, false_or, false_and,
        true_and] at hv
      exact .inr (.inr ⟨hc, hw, ha, hv⟩)

/-! ## Layouts -/

/-- The text of words, each with what stands behind it. -/
def laid (parts : List (List Char × List Char)) : List Char := parts.flatMap fun p => p.1 ++ p.2

theorem laid_cons (w gap : List Char) (parts : List (List Char × List Char)) :
    laid ((w, gap) :: parts) = w ++ (gap ++ laid parts) := by
  rw [laid, List.flatMap_cons, List.append_assoc]
  rfl

/-- **A text laid out as words**, with what stands before the first one and behind each: a word of capitals ends before
no small letter, and neighbours that touch are not one word together. -/
structure Layout (cs lead : List Char) (parts : List (List Char × List Char)) : Prop where
  text : cs = lead ++ laid parts
  lead : ∀ c ∈ lead, isWordChar c = false
  gaps : ∀ p ∈ parts, ∀ c ∈ p.2, isWordChar c = false
  isWord : ∀ p ∈ parts, IsWord p.1
  capitals : ∀ w gap after, (w, gap) :: after <:+ parts → (∀ c ∈ w, c.isUpper = true) →
    startsLower (gap ++ laid after) = false
  apart : ∀ w v gap after, (w, []) :: (v, gap) :: after <:+ parts → ¬IsWord (w ++ v)

namespace Layout

variable {lead gap : List Char} {parts : List (List Char × List Char)}

theorem nil : Layout [] [] [] where
  text := rfl
  lead := fun _ h => absurd h List.not_mem_nil
  gaps := fun _ h => absurd h List.not_mem_nil
  isWord := fun _ h => absurd h List.not_mem_nil
  capitals := fun _ _ _ h => by cases List.suffix_nil.1 h
  apart := fun _ _ _ _ h => by cases List.suffix_nil.1 h

theorem skip (h : Layout cs lead parts) (hc : isWordChar c = false) : Layout (c :: cs) (c :: lead) parts where
  text := by rw [h.text, List.cons_append]
  lead := List.forall_mem_cons.2 ⟨hc, h.lead⟩
  gaps := h.gaps
  isWord := h.isWord
  capitals := h.capitals
  apart := h.apart

/-- A word in front of a layout. -/
theorem word (h : Layout cs lead parts) (hw : IsWord w)
    (hcapitals : (∀ c ∈ w, c.isUpper = true) → startsLower cs = false)
    (hapart : lead = [] → ∀ v gap after, parts = (v, gap) :: after → ¬IsWord (w ++ v)) :
    Layout (w ++ cs) [] ((w, lead) :: parts) where
  text := by rw [laid_cons, h.text, List.nil_append]
  lead := fun _ h => absurd h List.not_mem_nil
  gaps := List.forall_mem_cons.2 ⟨h.lead, h.gaps⟩
  isWord := List.forall_mem_cons.2 ⟨hw, h.isWord⟩
  capitals := fun u gap after hsuffix hup => by
    rcases List.suffix_cons_iff.1 hsuffix with he | hsuffix
    · cases he
      rw [← h.text]
      exact hcapitals hup
    · exact h.capitals u gap after hsuffix hup
  apart := fun u v gap after hsuffix => by
    rcases List.suffix_cons_iff.1 hsuffix with he | hsuffix
    · cases he
      exact hapart rfl v gap after rfl
    · exact h.apart u v gap after hsuffix

/-- What stands behind the first word is laid out too. -/
theorem behind (h : Layout cs lead ((w, gap) :: parts)) : Layout (gap ++ laid parts) gap parts where
  text := rfl
  lead := h.gaps _ List.mem_cons_self
  gaps := fun p hp => h.gaps p (List.mem_cons_of_mem _ hp)
  isWord := fun p hp => h.isWord p (List.mem_cons_of_mem _ hp)
  capitals := fun u g after hsuffix => h.capitals u g after (hsuffix.trans (List.suffix_cons _ _))
  apart := fun u v g after hsuffix => h.apart u v g after (hsuffix.trans (List.suffix_cons _ _))

/-- A text that begins with a word begins with its first character. -/
theorem first (h : Layout (b :: cs) [] ((w, gap) :: parts)) : ∃ v, w = b :: v ∧ cs = v ++ (gap ++ laid parts) := by
  have htext := h.text
  cases w with
  | nil => exact (h.isWord _ List.mem_cons_self).elim
  | cons c v =>
    rw [laid_cons, List.nil_append, List.cons_append, List.cons.injEq] at htext
    obtain ⟨rfl, htext⟩ := htext
    exact ⟨v, rfl, htext⟩

/-- The first word begins where the first character of any word is. -/
theorem begins (h : Layout (b :: cs) lead parts) (hb : isWordChar b = true) :
    lead = [] ∧ ∃ w gap after, parts = (b :: w, gap) :: after ∧ cs = w ++ (gap ++ laid after) := by
  have htext := h.text
  cases lead with
  | cons c lead =>
    rw [List.cons_append, List.cons.injEq] at htext
    have hc := h.lead c List.mem_cons_self
    rw [← htext.1, hb] at hc
    cases hc
  | nil =>
    cases parts with
    | nil => cases htext
    | cons p after =>
      obtain ⟨w, gap⟩ := p
      obtain ⟨v, rfl, rfl⟩ := h.first
      exact ⟨rfl, v, gap, after, rfl, rfl⟩

/-- **Words hold exactly the characters that can stand in one**, in their order. -/
theorem flatten_eq_filter (h : Layout cs lead parts) : (parts.map Prod.fst).flatten = cs.filter isWordChar := by
  have hnone : ∀ ds : List Char, (∀ c ∈ ds, isWordChar c = false) → ds.filter isWordChar = [] := fun ds hds =>
    List.filter_eq_nil_iff.2 fun c hc => Bool.eq_false_iff.1 (hds c hc)
  induction parts generalizing cs lead with
  | nil => rw [h.text, List.filter_append, hnone lead h.lead]; rfl
  | cons p parts ih =>
    obtain ⟨w, gap⟩ := p
    have hw := (h.isWord _ List.mem_cons_self).isWordChar
    rw [h.text, laid_cons, List.filter_append, hnone lead h.lead, List.nil_append, List.filter_append,
      List.filter_eq_self.2 hw, ← ih h.behind, List.map_cons, List.flatten_cons]

end Layout

/-- **Every text has a layout.** -/
theorem exists_layout : ∀ cs, ∃ lead parts, Layout cs lead parts
  | [] => ⟨[], [], .nil⟩
  | [a] => by
    cases ha : isWordChar a with
    | false => exact ⟨[a], [], Layout.nil.skip ha⟩
    | true =>
      exact ⟨[], [([a], [])], Layout.nil.word (isWord_singleton ha) (fun _ => rfl) (fun _ _ _ _ h => by cases h)⟩
  | a :: b :: after => by
    obtain ⟨lead, parts, h⟩ := exists_layout (b :: after)
    cases ha : isWordChar a with
    | false => exact ⟨a :: lead, parts, h.skip ha⟩
    | true =>
      cases hj : joined a b after with
      | true =>
        -- the first word of the rest goes on to the left
        obtain ⟨rfl, w, gap, parts, rfl, rfl⟩ := h.begins (isWordChar_of_joined hj).2
        have hw : IsWord (b :: w) := h.isWord _ List.mem_cons_self
        refine ⟨[], (a :: b :: w, gap) :: parts, ?_⟩
        refine h.behind.word (isWord_cons_of_joined hw hj) (fun hup => ?_) (fun hgap v g rest hparts hv => ?_)
        · exact h.capitals (b :: w) gap parts (List.suffix_refl _) (List.forall_mem_cons.1 hup).2
        · subst hgap hparts
          exact h.apart (b :: w) v g rest (List.suffix_refl _) hv.tail
      | false =>
        refine ⟨[], ([a], lead) :: parts, ?_⟩
        refine h.word (isWord_singleton ha) (fun hup => ?_) (fun hlead v gap rest hparts hv => ?_)
        · refine Bool.eq_false_iff.2 fun hlow => Bool.eq_false_iff.1 hj (joined_iff.2 (.inr (.inl ⟨.inl ?_, hlow⟩)))
          exact hup a (List.mem_singleton_self a)
        · subst hlead hparts
          obtain ⟨v, rfl, rfl⟩ := h.first
          have hjoined : joined a b (v ++ (gap ++ laid rest)) = true := joined_of_isWord hv fun hup =>
            h.capitals _ gap rest (List.suffix_refl _) (List.forall_mem_cons.1 hup).2
          rw [hj] at hjoined
          cases hjoined

/-! ## Splitting -/

theorem words_skip (hc : isWordChar c = false) (cs : List Char) : words (c :: cs) = words cs := by
  cases cs with
  | nil => simp only [words, hc, Bool.false_eq_true, if_false]
  | cons d cs => rw [words, hc]; rfl

theorem words_append_of_skip {lead : List Char} (h : ∀ c ∈ lead, isWordChar c = false) (cs : List Char) :
    words (lead ++ cs) = words cs := by
  induction lead with
  | nil => rfl
  | cons c lead ih =>
    rw [List.forall_mem_cons] at h
    rw [List.cons_append, words_skip h.1, ih h.2]

theorem words_joined {after : List Char} (h : joined a b after = true) :
    words (a :: b :: after) = extend a (words (b :: after)) := by
  rw [words, (isWordChar_of_joined h).1, h]
  rfl

theorem words_apart {after : List Char} (ha : isWordChar a = true) (h : joined a b after = false) :
    words (a :: b :: after) = [a] :: words (b :: after) := by
  rw [words, ha, h]
  rfl

/-- **A word is split off**, if its last character and what comes behind it are not joined. -/
theorem words_append : ∀ {w : List Char}, IsWord w → ((∀ c ∈ w, c.isUpper = true) → startsLower rest = false) →
    (∀ u a b after, w = u ++ [a] → rest = b :: after → joined a b after = false) → words (w ++ rest) = w :: words rest
  | [], hw, _, _ => hw.elim
  | [a], hw, _, hend => by
    have ha := hw.isWordChar a List.mem_cons_self
    cases rest with
    | nil => simp only [List.append_nil, words, ha, if_true]
    | cons b after => exact words_apart ha (hend [] a b after rfl rfl)
  | a :: b :: w, hw, hcapitals, hend => by
    have ih := words_append hw.tail
      (fun hup => hcapitals (hw.isUpper (hup b List.mem_cons_self)))
      (fun u c d after hu hrest => hend (a :: u) c d after (by rw [hu]; rfl) hrest)
    rw [List.cons_append, List.cons_append, words_joined (joined_of_isWord hw hcapitals), ← List.cons_append, ih]
    rfl

/-- **The words of a layout are those that the text is split into.** -/
theorem Layout.words_eq {lead : List Char} {parts : List (List Char × List Char)} (h : Layout cs lead parts) :
    words cs = parts.map Prod.fst := by
  induction parts generalizing cs lead with
  | nil => rw [h.text, words_append_of_skip h.lead]; rfl
  | cons p parts ih =>
    obtain ⟨w, gap⟩ := p
    have hw : IsWord w := h.isWord _ List.mem_cons_self
    have hcapitals := h.capitals w gap parts (List.suffix_refl _)
    rw [h.text, words_append_of_skip h.lead, laid_cons, words_append hw hcapitals, ih h.behind, List.map_cons]
    intro u a b after hu hrest
    refine Bool.eq_false_iff.2 fun hj => ?_
    -- a joined neighbour begins the next word, which would be one with this
    have hbehind := h.behind
    rw [hrest] at hbehind hcapitals
    obtain ⟨rfl, v, g, parts, rfl, rfl⟩ := hbehind.begins (isWordChar_of_joined hj).2
    have hlonger := isWord_cons_of_joined (hbehind.isWord _ List.mem_cons_self) hj
    refine h.apart w (b :: v) g parts (List.suffix_refl _) ?_
    rw [hu, List.append_assoc]
    exact IsWord.append (hu ▸ hw) hlonger fun hup => hcapitals (hu ▸ hup)

/-- **A text is split at the right boundaries, and nothing is lost**: it has a layout, the words of any layout are those
it is split into, and all its letters and digits are in them, in their order. -/
theorem split_layout (t : String) :
    (∃ lead parts, Layout t.toList lead parts) ∧
    (∀ lead parts, Layout t.toList lead parts → split t = parts.map fun p => String.ofList p.1) ∧
    (split t).flatMap String.toList = t.toList.filter Char.isAlphanum := by
  have hwords : ∀ lead parts, Layout t.toList lead parts → split t = parts.map fun p => String.ofList p.1 := by
    intro lead parts h
    rw [split, h.words_eq, List.map_map]
    rfl
  obtain ⟨lead, parts, h⟩ := exists_layout t.toList
  refine ⟨⟨lead, parts, h⟩, hwords, ?_⟩
  have hfilter : t.toList.filter isWordChar = t.toList.filter Char.isAlphanum := rfl
  rw [← hfilter, ← h.flatten_eq_filter, hwords lead parts h, List.flatMap_map, List.flatten_eq_flatMap,
    List.flatMap_map]
  simp

/-- Capitals, one of which begins a word, and digits in between. -/
example : split "parseXMLHttp2ndÄrger" = ["parse", "XML", "Http", "2", "nd", "rger"] := by decide +kernel

end Words
end TrackingPlan
