import TrackingPlan.Json.Reader
import TrackingPlan.Json.Writer
import TrackingPlan.Proofs.Text.Quoted
/-!
# Text — JSON texts are read back

The reader takes the escape of a character for the character (`readText_escapeChar`): a short one, the code of its unit,
or those of two units, which it joins.  So what is written between quotes is read back to where it ends
(`readText_escaped`), and texts can be told from what is written (`textChars_append_inj`).
-/
namespace TrackingPlan
namespace Json

variable {read cs : List Char} {c : Char}

/-! ## Codes -/

theorem hexValue?_digitChar : ∀ d < 16, hexValue? (Nat.digitChar d) = some (Quoted.hexValue (Nat.digitChar d)) := by
  decide

theorem hexValue?_of_mem_toDigits {n : Nat} (h : c ∈ Nat.toDigits 16 n) : hexValue? c = some (Quoted.hexValue c) := by
  induction n using Nat.strongRecOn with
  | _ n ih =>
    by_cases hn : n < 16
    · rw [Nat.toDigits_of_lt_base hn, List.mem_singleton] at h
      rw [h]
      exact hexValue?_digitChar n hn
    · rw [Nat.toDigits_of_base_le (by decide) (Nat.le_of_not_lt hn), List.mem_append, List.mem_singleton] at h
      rcases h with h | h
      · exact ih (n / 16) (Nat.div_lt_self (by omega) (by decide)) h
      · rw [h]
        exact hexValue?_digitChar _ (Nat.mod_lt _ (by decide))

theorem hexValue?_of_mem_hexDigits {width n : Nat} (h : c ∈ Quoted.hexDigits width n) :
    hexValue? c = some (Quoted.hexValue c) := by
  rcases List.mem_append.1 h with h | h
  · rw [List.eq_of_mem_replicate h]
    rfl
  · exact hexValue?_of_mem_toDigits h

/-- Four digits are read back as their unit. -/
theorem hexUnit?_hexDigits {n : Nat} (hn : n < 0x10000) :
    ∃ a b c d, Quoted.hexDigits 4 n = [a, b, c, d] ∧ hexUnit? a b c d = some n := by
  have hread := Quoted.readHex_hexDigits 4 n
  have hvalue : ∀ c ∈ Quoted.hexDigits 4 n, hexValue? c = some (Quoted.hexValue c) := fun _ =>
    hexValue?_of_mem_hexDigits
  have hlen : (Quoted.hexDigits 4 n).length = 4 := Quoted.length_hexDigits (by decide) hn
  generalize Quoted.hexDigits 4 n = ds at hread hvalue hlen
  obtain ⟨a, b, c, d, rfl⟩ : ∃ a b c d, ds = [a, b, c, d] := by
    match ds, hlen with
    | [a, b, c, d], _ => exact ⟨a, b, c, d, rfl⟩
  refine ⟨a, b, c, d, rfl, ?_⟩
  simp only [List.mem_cons, List.not_mem_nil, or_false, forall_eq_or_imp, forall_eq] at hvalue
  obtain ⟨ha, hb, hc, hd⟩ := hvalue
  rw [hexUnit?, ha, hb, hc, hd, ← hread]
  simp [Quoted.readHex, Nat.mul_comm]

/-! ## Escapes -/

theorem readText_quote : readText read ('"' :: cs) = .ok (String.ofList read.reverse, cs) := by
  rw [readText]

theorem readText_short {e : Char} (h : shortEscape? c = some e) :
    readText read ('\\' :: c :: cs) = readText (e :: read) cs := by
  have hu : c ≠ 'u' := fun hc => by rw [hc] at h; cases h
  rw [readText]
  · simp only [h]
  · intros; simp_all
  · intros; simp_all

theorem readText_plain (hquote : c ≠ '"') (hslash : c ≠ '\\') (hc : 0x20 ≤ c.val) :
    readText read (c :: cs) = readText (c :: read) cs := by
  rw [readText, if_neg (by simpa using hc)]
  · exact hquote
  · exact fun _ _ _ _ _ _ _ _ _ h => absurd h hslash
  · exact fun _ _ _ _ _ h => absurd h hslash
  · exact fun _ _ h => absurd h hslash

/-- The text goes on with another unit. -/
def StartsUnit (cs : List Char) : Prop := ∃ a b c d rest, cs = '\\' :: 'u' :: a :: b :: c :: d :: rest

theorem readText_lone {a b c d : Char} (hcs : ¬StartsUnit cs) :
    readText read ('\\' :: 'u' :: a :: b :: c :: d :: cs) = match hexUnit? a b c d with
      | none => .error .malformed
      | some n => readText (unitChar n :: read) cs := by
  have hrest : ∀ e f g h rest, cs = '\\' :: 'u' :: e :: f :: g :: h :: rest → False := fun e f g h rest heq =>
    hcs ⟨e, f, g, h, rest, heq⟩
  cases hunit : hexUnit? a b c d <;> rw [readText, hunit] <;> exact hrest

theorem readText_malformed {a b c d : Char} (h : hexUnit? a b c d = none) :
    readText read ('\\' :: 'u' :: a :: b :: c :: d :: cs) = .error .malformed := by
  by_cases hcs : StartsUnit cs
  · obtain ⟨e, f, g, i, rest, rfl⟩ := hcs
    rw [readText, h]
  · rw [readText_lone hcs, h]

/-- A unit that is not the first of a pair is read by itself. -/
theorem readText_unit {n : Nat} (hn : n < 0x10000) (hhigh : isHighUnit n = false) :
    readText read (unitEscape n ++ cs) = readText (unitChar n :: read) cs := by
  obtain ⟨a, b, c, d, hdigits, hunit⟩ := hexUnit?_hexDigits hn
  rw [unitEscape, hdigits]
  change readText read ('\\' :: 'u' :: a :: b :: c :: d :: cs) = _
  by_cases hcs : StartsUnit cs
  · obtain ⟨e, f, g, h, rest, rfl⟩ := hcs
    rw [readText, hunit]
    cases hnext : hexUnit? e f g h with
    | none => exact (readText_malformed hnext).symm
    | some low => simp only [hhigh, Bool.false_and, Bool.false_eq_true, if_false]
  · rw [readText_lone hcs, hunit]

/-- **Two units of a pair are read as one character.** -/
theorem readText_pair {high low : Nat} (hhigh : isHighUnit high = true) (hlow : isLowUnit low = true) :
    readText read (unitEscape high ++ unitEscape low ++ cs) =
      readText (Char.ofNat (joinUnits high low) :: read) cs := by
  simp only [isHighUnit, isLowUnit, Bool.and_eq_true, decide_eq_true_eq] at hhigh hlow
  obtain ⟨a, b, c, d, hdigits, hunit⟩ := hexUnit?_hexDigits (n := high) (by omega)
  obtain ⟨e, f, g, h, hdigits', hunit'⟩ := hexUnit?_hexDigits (n := low) (by omega)
  rw [unitEscape, unitEscape, hdigits, hdigits']
  simp only [List.cons_append, List.nil_append]
  rw [readText]
  simp [hunit, hunit', isHighUnit, isLowUnit, hhigh, hlow]

/-! ## Texts -/

/-- No character is half a pair. -/
theorem toNat_not_unit (c : Char) : isHighUnit c.toNat = false ∧ isLowUnit c.toNat = false := by
  have hvalid : c.toNat < 0xd800 ∨ 0xdfff < c.toNat ∧ c.toNat < 0x110000 := c.valid
  unfold isHighUnit isLowUnit
  constructor <;> simp <;> omega

theorem unitChar_toNat (c : Char) : unitChar c.toNat = c := by
  obtain ⟨hhigh, hlow⟩ := toNat_not_unit c
  rw [unitChar, hhigh, hlow, Bool.or_self, if_neg Bool.false_ne_true, Char.ofNat_toNat]

theorem readText_surrogates (hc : 0x10000 ≤ c.toNat) :
    readText read (unitEscape (0xd800 + (c.toNat - 0x10000) / 0x400) ++
      unitEscape (0xdc00 + (c.toNat - 0x10000) % 0x400) ++ cs) = readText (c :: read) cs := by
  have hvalid : c.toNat < 0xd800 ∨ 0xdfff < c.toNat ∧ c.toNat < 0x110000 := c.valid
  have hhigh : isHighUnit (0xd800 + (c.toNat - 0x10000) / 0x400) = true := by
    simp only [isHighUnit, Bool.and_eq_true, decide_eq_true_eq]
    omega
  have hlow : isLowUnit (0xdc00 + (c.toNat - 0x10000) % 0x400) = true := by
    simp only [isLowUnit, Bool.and_eq_true, decide_eq_true_eq]
    omega
  have hjoin : joinUnits (0xd800 + (c.toNat - 0x10000) / 0x400) (0xdc00 + (c.toNat - 0x10000) % 0x400) = c.toNat := by
    unfold joinUnits
    omega
  rw [readText_pair hhigh hlow, hjoin, Char.ofNat_toNat]

/-- **An escape is read as its character.** -/
theorem readText_escapeChar (read : List Char) (c : Char) (cs : List Char) :
    readText read (escapeChar c ++ cs) = readText (c :: read) cs := by
  have hshort : ∀ {d e : Char}, c = e → shortEscape? d = some e →
      readText read (['\\', d] ++ cs) = readText (c :: read) cs := fun hc hd => by rw [hc]; exact readText_short hd
  unfold escapeChar
  split
  · next h => exact hshort rfl (by rcases h with rfl | rfl <;> rfl)
  next hplain =>
  obtain ⟨hquote, hslash⟩ := not_or.1 hplain
  split
  · next h => exact hshort h rfl
  split
  · next h => exact hshort h rfl
  split
  · next h => exact hshort h rfl
  split
  · next h => exact hshort (e := '\x08') (Char.toNat_inj.1 h) rfl
  split
  · next h => exact hshort (e := '\x0c') (Char.toNat_inj.1 h) rfl
  split
  · next h => exact readText_plain hquote hslash h.1
  split
  · next h => rw [readText_unit h (toNat_not_unit c).1, unitChar_toNat]
  · next h => exact readText_surrogates (Nat.le_of_not_lt h)

theorem readText_flatMap : ∀ (ds read : List Char), readText read (ds.flatMap escapeChar ++ '"' :: cs) =
    .ok (String.ofList (read.reverse ++ ds), cs)
  | [], read => by rw [List.flatMap_nil, List.nil_append, List.append_nil, readText_quote]
  | d :: ds, read => by
    rw [List.flatMap_cons, List.append_assoc, readText_escapeChar, readText_flatMap ds (d :: read), List.reverse_cons,
      List.append_assoc]
    rfl

/-- **What is written between quotes is read back**, up to the closing quote. -/
theorem readText_escaped (s : String) (cs : List Char) :
    readText [] (s.toList.flatMap escapeChar ++ '"' :: cs) = .ok (s, cs) := by
  rw [readText_flatMap, List.reverse_nil, List.nil_append, String.ofList_toList]

/-- **No written text begins another one.** -/
theorem textChars_append_inj {s t : String} {cs ds : List Char} (h : textChars s ++ cs = textChars t ++ ds) :
    s = t ∧ cs = ds := by
  simp only [textChars, List.cons_append, List.append_assoc, List.nil_append, List.cons.injEq, true_and] at h
  have hread := congrArg (readText []) h
  rw [readText_escaped, readText_escaped, Except.ok.injEq, Prod.mk.injEq] at hread
  exact hread

end Json
end TrackingPlan
