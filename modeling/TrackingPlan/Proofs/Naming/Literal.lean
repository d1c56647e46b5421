import TrackingPlan.Proofs.Naming.Usable
/-!
# Literal — a text written in place of an identifier can be read back

Between quotes a backslash takes the next character with it, so what stands there is read as `Piece`s: a character
alone, or one behind a backslash.  A text is written so that each of its characters is one piece, and no quote is alone
(`pieces?_escapedChars`).  A quote is no legal character, so a text left as it is differs from all that are quoted, and
texts can be told from what is written (`escapeString_undone`).
-/
namespace TrackingPlan
namespace Dialect

/-! ## What stands between quotes -/

/-- A character alone, or with a backslash in front. -/
inductive Piece where
  | alone (c : Char)
  | escaped (c : Char)

def Piece.char : Piece → Char
  | .alone c | .escaped c => c

/-- The pieces of what stands between quotes, unless it ends with a backslash that takes nothing with it. -/
def pieces? : List Char → Option (List Piece)
  | [] => some []
  | ['\\'] => none
  | '\\' :: c :: cs => (pieces? cs).map (.escaped c :: ·)
  | c :: cs => (pieces? cs).map (.alone c :: ·)

theorem pieces?_alone {c : Char} (h : c ≠ '\\') (cs : List Char) :
    pieces? (c :: cs) = (pieces? cs).map (.alone c :: ·) := by
  rw [pieces?]
  · exact fun hc _ => h hc
  · exact fun _ _ hc _ => h hc

/-- What is written between quotes for a text. -/
def escapedChars (quote : Char) (cs : List Char) : List Char :=
  cs.flatMap fun c => if c = '\\' ∨ c = quote then ['\\', c] else [c]

/-- The piece that a character is written as. -/
def pieceOf (quote c : Char) : Piece := if c = '\\' ∨ c = quote then .escaped c else .alone c

theorem char_pieceOf (quote c : Char) : (pieceOf quote c).char = c := by
  unfold pieceOf
  split <;> rfl

theorem pieceOf_ne_alone (quote c : Char) : pieceOf quote c ≠ .alone quote := by
  unfold pieceOf
  split
  · exact Piece.noConfusion
  · next h => exact fun he => h (.inr (Piece.alone.inj he))

/-- **Each character is written as one piece.** -/
theorem pieces?_escapedChars (quote : Char) (cs : List Char) :
    pieces? (escapedChars quote cs) = some (cs.map (pieceOf quote)) := by
  induction cs with
  | nil => rfl
  | cons c cs ih =>
    unfold escapedChars at ih ⊢
    rw [List.flatMap_cons, List.map_cons, pieceOf]
    split
    · rw [List.cons_append, List.singleton_append, pieces?, ih]
      rfl
    · next h => rw [List.singleton_append, pieces?_alone (not_or.1 h).1, ih]; rfl

theorem escapedChars_injective (quote : Char) : Function.Injective (escapedChars quote) := by
  intro cs ds h
  have hpieces := congrArg pieces? h
  rw [pieces?_escapedChars, pieces?_escapedChars, Option.some.injEq] at hpieces
  have hchars := congrArg (List.map Piece.char) hpieces
  simpa [Function.comp_def, char_pieceOf] using hchars

/-! ## Texts as they are written -/

/-- The dialect of a language, or the one of none. -/
def ofLanguage? (l : Option Language) : Dialect := l.elim plain ofLanguage

/-- No identifier holds a quote. -/
theorem isLegal_quote (l : Option Language) : (ofLanguage? l).isLegal (ofLanguage? l).quote = false := by
  rcases l with _ | (_ | _ | _ | _ | _) <;> decide

variable {d : Dialect}

theorem escapeString_cases (d : Dialect) (value : String) :
    (d.isPlainIdentifier value.toList = true ∧ d.escapeString value = value) ∨
      (d.escapeString value).toList = d.quote :: (escapedChars d.quote value.toList ++ [d.quote]) := by
  unfold escapeString
  split
  · next h => exact .inl ⟨h, rfl⟩
  · exact .inr String.toList_ofList

/-- A text left as it is differs from one between quotes. -/
theorem ne_quoted_of_isPlainIdentifier (hquote : d.isLegal d.quote = false) {cs ds : List Char}
    (h : d.isPlainIdentifier cs = true) : cs ≠ d.quote :: ds := by
  rintro rfl
  have hlegal := (isPlainIdentifier_iff.1 h).1.legal d.quote List.mem_cons_self
  rw [hquote] at hlegal
  cases hlegal

/-- **Different texts are written differently.** -/
theorem escapeString_injective (hquote : d.isLegal d.quote = false) : Function.Injective d.escapeString := by
  intro v w h
  have hchars := congrArg String.toList h
  rcases d.escapeString_cases v with ⟨hv, hev⟩ | hev <;> rcases d.escapeString_cases w with ⟨hw, hew⟩ | hew
  · rw [← hev, ← hew, h]
  · rw [hev, hew] at hchars
    exact absurd hchars (ne_quoted_of_isPlainIdentifier hquote hv)
  · rw [hev, hew] at hchars
    exact absurd hchars.symm (ne_quoted_of_isPlainIdentifier hquote hw)
  · rw [hev, hew, List.cons_inj_right, List.append_cancel_right_eq] at hchars
    exact String.toList_injective (escapedChars_injective d.quote hchars)

/-- **What is written for a text can be undone, and does not end early**: in each language and in none, a text is either
left as it is, when it is an identifier that is not reserved, or stands between quotes in pieces whose characters are
its own, and none of which is a quote alone.  So no two texts are written alike. -/
theorem escapeString_undone (l : Option Language) :
    (∀ value : String,
      ((ofLanguage? l).escapeString value = value ∧ (ofLanguage? l).Identifier value.toList ∧
        (ofLanguage? l).isReserved value = false) ∨
      ∃ body pieces, ((ofLanguage? l).escapeString value).toList =
          (ofLanguage? l).quote :: (body ++ [(ofLanguage? l).quote]) ∧
        pieces? body = some pieces ∧ .alone (ofLanguage? l).quote ∉ pieces ∧
        pieces.map Piece.char = value.toList) ∧
    Function.Injective (ofLanguage? l).escapeString := by
  refine ⟨fun value => ?_, escapeString_injective (isLegal_quote l)⟩
  rcases (ofLanguage? l).escapeString_cases value with ⟨hplain, hsame⟩ | hquoted
  · obtain ⟨hidentifier, hfree⟩ := isPlainIdentifier_iff.1 hplain
    rw [String.ofList_toList] at hfree
    exact .inl ⟨hsame, hidentifier, hfree⟩
  · refine .inr ⟨_, _, hquoted, pieces?_escapedChars _ _, fun hmem => ?_, ?_⟩
    · obtain ⟨c, -, hc⟩ := List.mem_map.1 hmem
      exact pieceOf_ne_alone _ c hc
    · simp [Function.comp_def, char_pieceOf]

/-- A backslash before a quote, and one at the end. -/
example : (ofLanguage? (some .typescript)).escapeString "a\\'\\" = "'a\\\\\\'\\\\'" := by decide +kernel

end Dialect
end TrackingPlan
