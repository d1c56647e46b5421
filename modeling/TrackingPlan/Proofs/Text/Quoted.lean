import Mathlib.Algebra.Ring.Nat
import Mathlib.Data.List.Basic
import TrackingPlan.Json.Literal
import TrackingPlan.Proofs.Text.Separated
/-!
# Quoted — a literal gives its texts back

A character is read back from the front of its escape, which never starts with the quote (`readEscaped_escape`).  So a
quoted text ends where its quote comes back (`quote_append_inj`), and a tuple of texts has a literal of its own
(`tupleText_injective`).
-/
namespace TrackingPlan
namespace Quoted

/-! ## Codes -/

def hexValue (c : Char) : Nat := if c.toNat ≤ '9'.toNat then c.toNat - '0'.toNat else c.toNat - 'a'.toNat + 10

/-- The number that hexadecimal digits stand for. -/
def readHex (cs : List Char) : Nat := cs.foldl (fun n c => 16 * n + hexValue c) 0

theorem hexValue_digitChar : ∀ d < 16, hexValue (Nat.digitChar d) = d := by decide

theorem readHex_toDigits (n : Nat) : readHex (Nat.toDigits 16 n) = n := by
  induction n using Nat.strongRecOn with
  | _ n ih =>
    by_cases h : n < 16
    · rw [Nat.toDigits_of_lt_base h]
      exact (Nat.zero_add _).trans (hexValue_digitChar n h)
    · rw [Nat.toDigits_of_base_le (by decide) (Nat.le_of_not_lt h)]
      have hdigit := hexValue_digitChar (n % 16) (Nat.mod_lt _ (by decide))
      have hread := ih (n / 16) (Nat.div_lt_self (by omega) (by decide))
      unfold readHex at hread ⊢
      rw [List.foldl_append, hread, List.foldl_cons, List.foldl_nil, hdigit]
      omega

theorem readHex_hexDigits (width n : Nat) : readHex (hexDigits width n) = n := by
  have hzeros : ∀ k, (List.replicate k '0').foldl (fun n c => 16 * n + hexValue c) 0 = 0 := fun k => by
    induction k with
    | zero => rfl
    | succ k ih => exact ih
  have hread := readHex_toDigits n
  unfold readHex hexDigits at *
  rw [List.foldl_append, hzeros, hread]

theorem length_hexDigits {width n : Nat} (hw : 0 < width) (hn : n < 16 ^ width) :
    (hexDigits width n).length = width := by
  have hlen := (Nat.length_toDigits_le_iff (b := 16) (by decide) hw).2 hn
  unfold hexDigits
  rw [List.length_append, List.length_replicate]
  omega

/-! ## Escapes -/

/-- The character of the code that the digits at the front stand for, with what follows them. -/
def readCode (width : Nat) (cs : List Char) : Char × List Char := (Char.ofNat (readHex (cs.take width)), cs.drop width)

/-- The first character of an escaped text, with what follows it; none where the quote ends the text. -/
def readEscaped (quote : Char) : List Char → Option (Char × List Char)
  | [] => none
  | '\\' :: 'n' :: cs => some ('\n', cs)
  | '\\' :: 'r' :: cs => some ('\r', cs)
  | '\\' :: 't' :: cs => some ('\t', cs)
  | '\\' :: 'x' :: cs => some (readCode 2 cs)
  | '\\' :: 'u' :: cs => some (readCode 4 cs)
  | '\\' :: 'U' :: cs => some (readCode 8 cs)
  | '\\' :: c :: cs => some (c, cs)
  | c :: cs => if c = quote then none else some (c, cs)

theorem readCode_hexDigits {width : Nat} {c : Char} (hw : 0 < width) (hc : c.toNat < 16 ^ width) (cs : List Char) :
    readCode width (hexDigits width c.toNat ++ cs) = (c, cs) := by
  have hlen := length_hexDigits hw hc
  unfold readCode
  rw [List.take_append_of_le_length (by omega), List.take_of_length_le (by omega), readHex_hexDigits, Char.ofNat_toNat,
    List.drop_append_of_le_length (by omega), List.drop_of_length_le (by omega), List.nil_append]

theorem readEscaped_codeEscape (quote c : Char) (cs : List Char) :
    readEscaped quote (codeEscape c ++ cs) = some (c, cs) := by
  have hc : c.toNat < 16 ^ 8 := Nat.lt_of_lt_of_le c.val.toNat_lt (by decide)
  unfold codeEscape
  split
  · exact congrArg some (readCode_hexDigits (by decide) (by omega) cs)
  · split
    · exact congrArg some (readCode_hexDigits (by decide) (by omega) cs)
    · exact congrArg some (readCode_hexDigits (by decide) hc cs)

/-- A quote is one of two characters. -/
def IsQuote (quote : Char) : Prop := quote = '\'' ∨ quote = '"'

theorem isQuote_quoteFor (cs : List Char) : IsQuote (quoteFor cs) := by
  unfold quoteFor
  split
  · exact .inr rfl
  · exact .inl rfl

/-- **An escape is read back as its character.** -/
theorem readEscaped_escape {quote : Char} (hq : IsQuote quote) (asciiOnly : Bool) (c : Char) (cs : List Char) :
    readEscaped quote (escape asciiOnly quote c ++ cs) = some (c, cs) := by
  unfold escape
  split
  · next h => rcases h with rfl | rfl <;> rcases hq with rfl | rfl <;> rfl
  · next hplain =>
    obtain ⟨hquote, hslash⟩ := not_or.1 hplain
    split
    · next h => rw [h]; rfl
    · split
      · next h => rw [h]; rfl
      · split
        · next h => rw [h]; rfl
        · split
          · simp [readEscaped, hquote, hslash]
          · exact readEscaped_codeEscape quote c cs

theorem readEscaped_quote {quote : Char} (hq : IsQuote quote) (cs : List Char) :
    readEscaped quote (quote :: cs) = none := by
  rcases hq with rfl | rfl <;> rfl

/-! ## Quoted texts -/

/-- **An escaped text ends at its quote**, so what is escaped and what follows it can be told from the whole. -/
theorem escaped_append_inj {quote : Char} (hq : IsQuote quote) {asciiOnly : Bool} {r s : List Char} :
    ∀ {cs ds : List Char}, cs.flatMap (escape asciiOnly quote) ++ quote :: r =
      ds.flatMap (escape asciiOnly quote) ++ quote :: s → cs = ds ∧ r = s
  | [], [], h => ⟨rfl, (List.cons.inj h).2⟩
  | [], d :: ds, h => by
    have hread := congrArg (readEscaped quote) h
    rw [List.flatMap_cons, List.append_assoc, readEscaped_escape hq] at hread
    rw [List.flatMap_nil, List.nil_append, readEscaped_quote hq] at hread
    cases hread
  | c :: cs, [], h => by
    have hread := congrArg (readEscaped quote) h
    rw [List.flatMap_cons, List.append_assoc, readEscaped_escape hq] at hread
    rw [List.flatMap_nil, List.nil_append, readEscaped_quote hq] at hread
    cases hread
  | c :: cs, d :: ds, h => by
    have hread := congrArg (readEscaped quote) h
    rw [List.flatMap_cons, List.flatMap_cons, List.append_assoc, List.append_assoc, readEscaped_escape hq,
      readEscaped_escape hq, Option.some.injEq, Prod.mk.injEq] at hread
    obtain ⟨rfl, hrest⟩ := hread
    obtain ⟨rfl, rfl⟩ := escaped_append_inj hq hrest
    exact ⟨rfl, rfl⟩

/-- **No quoted text begins another one**: a text and what follows its literal can be told from the two together. -/
theorem quote_append_inj {cs ds r s : List Char} (h : quote cs ++ r = quote ds ++ s) : cs = ds ∧ r = s := by
  simp only [quote, quoteWith, List.cons_append, List.append_assoc, List.nil_append, List.cons.injEq] at h
  obtain ⟨hquote, h⟩ := h
  rw [hquote] at h
  exact escaped_append_inj (isQuote_quoteFor ds) h

end Quoted

/-! ## Tuples -/

namespace Json

/-- What stands behind the first text of a tuple. -/
def behindFirst : List String → List Char
  | [] => [',', ')']
  | ts => further (fun t => Quoted.quote t.toList) ')' ts

theorem delimited_quote : Delimited (fun _ => True) fun t : String => Quoted.quote t.toList := fun _ _ h =>
  (Quoted.quote_append_inj h).imp_left String.toList_injective

theorem itemLiterals_texts (ts : List String) : itemLiterals (ts.map .str) = ts.map fun t => Quoted.quote t.toList := by
  induction ts with
  | nil => rfl
  | cons t ts ih => rw [List.map_cons, itemLiterals, ih, literal, List.map_cons]

theorem tupleLiteral_texts (t : String) (ts : List String) :
    tupleLiteral ((t :: ts).map .str) = '(' :: (Quoted.quote t.toList ++ behindFirst ts) := by
  cases ts with
  | nil => rfl
  | cons u us =>
    refine congrArg ('(' :: ·) ?_
    rw [separated, itemLiterals_texts]
    exact intercalate_eq_further _ ')' t (u :: us)

theorem behindFirst_injective : ∀ {ts us : List String}, behindFirst ts = behindFirst us → ts = us
  | [], [], _ => rfl
  | [], _ :: _, h => by cases h
  | _ :: _, [], h => by cases h
  | _ :: _, _ :: _, h => further_injective delimited_quote (by decide) (fun _ _ => trivial) (fun _ _ => trivial) h

/-- **A tuple of texts shows all of them**: two that are written alike are the same. -/
theorem tupleText_injective {t u : String} {ts us : List String}
    (h : tupleText ((t :: ts).map .str) = tupleText ((u :: us).map .str)) : t :: ts = u :: us := by
  have hchars := String.ofList_injective h
  rw [tupleLiteral_texts, tupleLiteral_texts] at hchars
  obtain ⟨ht, hts⟩ := Quoted.quote_append_inj (List.cons.inj hchars).2
  rw [String.toList_injective ht, behindFirst_injective hts]

end Json
end TrackingPlan
