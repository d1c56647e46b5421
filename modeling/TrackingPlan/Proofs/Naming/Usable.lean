import TrackingPlan.Proofs.Naming.Run
/-!
# Usable — every name given out can be written in the target language

Any text is made an `Identifier`: legal characters only, at least one, no digit in front.  Reserved words are all of
letters, so what is escaped is not reserved again, and neither is a name with a number behind it
(`isReserved_eq_false`).  What holds of every name that could be given out holds of all names of a namer
(`Holds.run`), so they are all `Usable` (`answer_usable`).
-/
namespace TrackingPlan
namespace Dialect

variable {d : Dialect} {cs es : List Char}

/-! ## Identifiers -/

/-- **An identifier**, reserved or not. -/
structure Identifier (d : Dialect) (cs : List Char) : Prop where
  ne_nil : cs ≠ []
  legal : ∀ c ∈ cs, d.isLegal c = true
  start : startsWithDigit cs = false

theorem isPlainIdentifier_iff :
    d.isPlainIdentifier cs = true ↔ d.Identifier cs ∧ d.isReserved (String.ofList cs) = false := by
  simp only [isPlainIdentifier, Bool.and_eq_true, Bool.not_eq_true', List.isEmpty_eq_false_iff, List.all_eq_true]
  exact ⟨fun ⟨⟨⟨hne, hl⟩, hs⟩, hr⟩ => ⟨⟨hne, hl, hs⟩, hr⟩, fun ⟨⟨hne, hl, hs⟩, hr⟩ => ⟨⟨⟨hne, hl⟩, hs⟩, hr⟩⟩

theorem isLegal_underscore (d : Dialect) : d.isLegal '_' = true := by simp [isLegal]

theorem identifier_legalized (d : Dialect) (cs : List Char) : d.Identifier (d.legalized cs) := by
  have hlegal : ∀ c ∈ cs.map (fun c => if d.isLegal c then c else '_'), d.isLegal c = true := by
    intro c hc
    obtain ⟨b, -, rfl⟩ := List.mem_map.1 hc
    split
    · next hb => exact hb
    · exact d.isLegal_underscore
  unfold legalized
  generalize cs.map (fun c => if d.isLegal c then c else '_') = ds at hlegal ⊢
  simp only
  split
  · exact ⟨List.cons_ne_nil _ _, List.forall_mem_cons.2 ⟨d.isLegal_underscore, hlegal⟩, rfl⟩
  · next h =>
    rw [Bool.or_eq_true, not_or, Bool.not_eq_true, Bool.not_eq_true] at h
    exact ⟨List.isEmpty_eq_false_iff.1 h.1, hlegal, h.2⟩

namespace Identifier

theorem append (h : d.Identifier cs) (hes : ∀ c ∈ es, d.isLegal c = true) : d.Identifier (cs ++ es) where
  ne_nil := List.append_ne_nil_of_left_ne_nil h.ne_nil es
  legal := List.forall_mem_append.2 ⟨h.legal, hes⟩
  start := by
    obtain ⟨c, cs', rfl⟩ := List.exists_cons_of_ne_nil h.ne_nil
    exact h.start

theorem behindUnderscore (h : d.Identifier cs) : d.Identifier ('_' :: cs) where
  ne_nil := List.cons_ne_nil _ _
  legal := List.forall_mem_cons.2 ⟨d.isLegal_underscore, h.legal⟩
  start := rfl

end Identifier

/-! ## Reserved words -/

/-- **Reserved words are all of letters**, but that a lone underscore may be one. -/
def LetterWords (d : Dialect) : Prop := ∀ w ∈ d.reserved, w = "_" ∨ w.toList.all Char.isAlpha = true

instance : Decidable d.LetterWords := inferInstanceAs (Decidable (∀ w ∈ d.reserved, _))

theorem letterWords_ofLanguage (l : Language) : (ofLanguage l).LetterWords := by
  cases l <;> decide +kernel

theorem toLower_of_not_isAlpha {c : Char} (h : c.isAlpha = false) : c.toLower = c := by
  have hupper : c.isUpper = false := (Bool.or_eq_false_iff.1 h).1
  exact dif_neg (of_decide_eq_false hupper)

/-- A mark of ASCII that is no letter stays as it is in lower case. -/
theorem mem_lowerFrom {c : Char} (hascii : c.val < 0x80) (hmark : c.isAlpha = false) : ∀ {before cs : List Char},
    c ∈ cs → c ∈ Unicode.lowerFrom before cs
  | _, b :: cs, h => by
    rw [Unicode.lowerFrom, List.mem_append]
    rcases List.mem_cons.1 h with rfl | h
    · have hsigma : c ≠ 'Σ' := by
        rintro rfl
        exact absurd hascii (by decide)
      rw [if_neg hsigma, Unicode.lower, if_pos hascii, toLower_of_not_isAlpha hmark]
      exact .inl (List.mem_singleton_self _)
    · exact .inr (mem_lowerFrom hascii hmark h)

theorem length_le_lowerFrom : ∀ before cs : List Char, cs.length ≤ (Unicode.lowerFrom before cs).length
  | _, [] => Nat.le_refl _
  | before, c :: cs => by
    have hrest := length_le_lowerFrom (c :: before) cs
    have hone : 1 ≤ (Unicode.lower c).length := by
      unfold Unicode.lower
      split
      · exact Nat.le_refl 1
      · split
        · exact Nat.le_succ 1
        · exact Nat.le_refl 1
    rw [Unicode.lowerFrom, List.length_append, List.length_cons]
    split
    · rw [List.length_singleton]; omega
    · omega

/-- **A name with a mark in it that is no letter is not reserved**, unless it is a lone underscore. -/
theorem isReserved_eq_false (hd : d.LetterWords) {c : Char} (hc : c ∈ cs) (hascii : c.val < 0x80)
    (hmark : c.isAlpha = false) (hne : cs ≠ ['_']) : d.isReserved (String.ofList cs) = false := by
  have hword : ∀ ds : List Char, c ∈ ds → cs.length ≤ ds.length → String.ofList ds ∉ d.reserved := by
    intro ds hcds hlen hmem
    rcases hd _ hmem with hunderscore | hletters
    · have hds : ds = ['_'] := by
        have h := congrArg String.toList hunderscore
        rwa [String.toList_ofList] at h
      rw [hds, List.mem_singleton] at hcds
      rw [hds] at hlen
      obtain ⟨b, hb⟩ := List.length_eq_one_iff.1 (Nat.le_antisymm hlen (List.length_pos_of_mem hc))
      rw [hb, List.mem_singleton] at hc
      exact hne (by rw [hb, ← hc, hcds])
    · rw [String.toList_ofList, List.all_eq_true] at hletters
      rw [hletters c hcds] at hmark
      cases hmark
  unfold isReserved
  refine Bool.eq_false_iff.2 fun hres => ?_
  have hmem := List.contains_iff_mem.1 hres
  split at hmem
  · exact hword cs hc (Nat.le_refl _) hmem
  · rw [Unicode.lowerText, String.toList_ofList] at hmem
    exact hword _ (mem_lowerFrom hascii hmark hc) (length_le_lowerFrom [] cs) hmem

/-! ## What is done to an identifier -/

/-- A reserved word as it is escaped. -/
def escaped (d : Dialect) (cs : List Char) : List Char :=
  match d.escape with
  | .underscoreBefore => '_' :: cs
  | .underscoreAfter => cs ++ ['_']
  | .atSign => '@' :: cs
  | .backticks => '\x60' :: (cs ++ ['\x60'])

theorem escapeReserved_ofList (d : Dialect) (cs : List Char) :
    d.escapeReserved (String.ofList cs) = String.ofList (d.escaped cs) := by
  apply String.toList_injective
  unfold escapeReserved escaped
  cases d.escape <;> simp

/-- The characters of an identifier with a number behind it. -/
def numbered (cs : List Char) (n : Nat) : List Char := cs ++ '_' :: Numeral.natDigits n

theorem Identifier.numbered (h : d.Identifier cs) (n : Nat) : d.Identifier (numbered cs n) := by
  refine h.append (List.forall_mem_cons.2 ⟨d.isLegal_underscore, fun c hc => ?_⟩)
  have hdigit : c.isDigit = true := Nat.isDigit_of_mem_toDigits (by decide) (by decide) hc
  simp [isLegal, Char.isAlphanum, hdigit]

theorem isReserved_numbered (hd : d.LetterWords) (h : d.Identifier cs) (n : Nat) :
    d.isReserved (String.ofList (numbered cs n)) = false := by
  refine isReserved_eq_false hd (c := '_') ?_ (by decide) (by decide) ?_
  · exact List.mem_append_right _ List.mem_cons_self
  · intro he
    have hpos := List.length_pos_of_ne_nil h.ne_nil
    have hlen := congrArg List.length he
    rw [numbered, List.length_append, List.length_cons, List.length_singleton] at hlen
    omega

theorem isReserved_escaped (hd : d.LetterWords) (h : d.Identifier cs) :
    d.isReserved (String.ofList (d.escaped cs)) = false := by
  have hne : d.escaped cs ≠ ['_'] := by
    intro he
    have hpos := List.length_pos_of_ne_nil h.ne_nil
    have hlen := congrArg List.length he
    unfold escaped at hlen
    split at hlen <;> simp only [List.length_cons, List.length_append, List.length_nil] at hlen <;> omega
  obtain ⟨c, hc, hascii, hmark⟩ : ∃ c ∈ d.escaped cs, c.val < 0x80 ∧ c.isAlpha = false := by
    unfold escaped
    cases d.escape with
    | underscoreBefore => exact ⟨'_', List.mem_cons_self, by decide, by decide⟩
    | underscoreAfter =>
      exact ⟨'_', List.mem_append_right _ (List.mem_singleton_self _), by decide, by decide⟩
    | atSign => exact ⟨'@', List.mem_cons_self, by decide, by decide⟩
    | backticks => exact ⟨'\x60', List.mem_cons_self, by decide, by decide⟩
  exact isReserved_eq_false hd hc hascii hmark hne

theorem beq_backtick_of_isLegal {c : Char} (h : d.isLegal c = true) : (c == '\x60') = false := by
  refine beq_eq_false_iff_ne.2 fun he => ?_
  rw [he, isLegal] at h
  cases hdollar : d.dollar <;> simp [hdollar] at h

theorem stripBackticks_identifier (h : d.Identifier cs) : stripBackticks cs = cs := by
  have hkeep : ∀ ds : List Char, (∀ c ∈ ds, d.isLegal c = true) → ds.dropWhile (· == '\x60') = ds := by
    intro ds hds
    cases ds with
    | nil => rfl
    | cons c ds =>
      rw [List.dropWhile_cons, beq_backtick_of_isLegal (hds c List.mem_cons_self)]
      rfl
  unfold stripBackticks
  rw [hkeep cs h.legal, hkeep cs.reverse (fun c hc => h.legal c (List.mem_reverse.1 hc)), List.reverse_reverse]

theorem stripBackticks_backticks (h : d.Identifier cs) : stripBackticks ('\x60' :: (cs ++ ['\x60'])) = cs := by
  obtain ⟨c, cs', rfl⟩ := List.exists_cons_of_ne_nil h.ne_nil
  have hc := beq_backtick_of_isLegal (h.legal c List.mem_cons_self)
  have hstrip := stripBackticks_identifier h
  simp only [stripBackticks, List.dropWhile_cons, hc, List.cons_append] at hstrip ⊢
  simpa [List.dropWhile_cons] using hstrip

/-- **A number behind an identifier**, in every dialect. -/
theorem withSuffix_identifier (hd : d.LetterWords) (h : d.Identifier cs) (n : Nat) :
    d.withSuffix (String.ofList cs) n = String.ofList (numbered cs n) := by
  unfold withSuffix withEnding
  rw [String.toList_ofList]
  cases he : d.escape with
  | backticks =>
    simp only [stripBackticks_identifier h]
    exact if_neg (Bool.eq_false_iff.1 (isReserved_numbered hd h n))
  | _ => rfl

/-- **A number behind an escaped word**: backticks are taken away, an at sign stays. -/
theorem withSuffix_escaped (hd : d.LetterWords) (h : d.Identifier cs) (n : Nat) :
    d.withSuffix (String.ofList (d.escaped cs)) n = String.ofList (match d.escape with
      | .underscoreBefore => numbered ('_' :: cs) n
      | .underscoreAfter => numbered (cs ++ ['_']) n
      | .atSign => '@' :: numbered cs n
      | .backticks => numbered cs n) := by
  unfold withSuffix withEnding escaped
  rw [String.toList_ofList]
  cases he : d.escape with
  | backticks =>
    simp only [stripBackticks_backticks h]
    exact if_neg (Bool.eq_false_iff.1 (isReserved_numbered hd h n))
  | _ => rfl

/-! ## Usable names -/

/-- **A name that can be written in the dialect**: an identifier that is not reserved, or else an identifier behind an
at sign or a reserved word between backticks, where the dialect escapes so. -/
def Usable (d : Dialect) (name : String) : Prop :=
  d.isPlainIdentifier name.toList = true ∨ match d.escape with
    | .atSign => ∃ cs, name.toList = '@' :: cs ∧ d.Identifier cs
    | .backticks => ∃ w, d.isReserved w = true ∧ name = "\x60" ++ w ++ "\x60"
    | _ => False

theorem usable_of_identifier (h : d.Identifier cs) (hr : d.isReserved (String.ofList cs) = false) :
    d.Usable (String.ofList cs) :=
  .inl (isPlainIdentifier_iff.2 (by rw [String.toList_ofList]; exact ⟨h, hr⟩))

theorem usable_numbered (hd : d.LetterWords) (h : d.Identifier cs) (n : Nat) :
    d.Usable (String.ofList (numbered cs n)) :=
  usable_of_identifier (h.numbered n) (isReserved_numbered hd h n)

theorem Identifier.beforeUnderscore (h : d.Identifier cs) : d.Identifier (cs ++ ['_']) :=
  h.append (List.forall_mem_singleton.2 d.isLegal_underscore)

theorem usable_escaped (hd : d.LetterWords) (h : d.Identifier cs) (hr : d.isReserved (String.ofList cs) = true) :
    d.Usable (String.ofList (d.escaped cs)) := by
  have hfree := isReserved_escaped hd h
  unfold escaped at hfree ⊢
  cases he : d.escape with
  | underscoreBefore =>
    rw [he] at hfree
    exact usable_of_identifier h.behindUnderscore hfree
  | underscoreAfter =>
    rw [he] at hfree
    exact usable_of_identifier h.beforeUnderscore hfree
  | atSign =>
    refine .inr ?_
    rw [he]
    exact ⟨cs, String.toList_ofList, h⟩
  | backticks =>
    refine .inr ?_
    rw [he]
    refine ⟨String.ofList cs, hr, String.toList_injective ?_⟩
    simp

theorem usable_escaped_numbered (hd : d.LetterWords) (h : d.Identifier cs) (n : Nat) :
    d.Usable (d.withSuffix (String.ofList (d.escaped cs)) n) := by
  rw [withSuffix_escaped hd h]
  cases he : d.escape with
  | underscoreBefore => exact usable_numbered hd h.behindUnderscore n
  | underscoreAfter => exact usable_numbered hd h.beforeUnderscore n
  | atSign =>
    refine .inr ?_
    rw [he]
    exact ⟨numbered cs n, String.toList_ofList, h.numbered n⟩
  | backticks => exact usable_numbered hd h n

end Dialect

namespace Namer

open Dialect (LetterWords Identifier escaped numbered)

variable {d : Dialect} {P : String → Prop}

/-! ## What is given out -/

/-- **What is asked for** by a text: an identifier, escaped if it is reserved. -/
theorem wanted_cases (hd : d.LetterWords) (name : String) : ∃ cs, d.Identifier cs ∧
    ((d.isReserved (String.ofList cs) = false ∧ wanted d name = String.ofList cs) ∨
      (d.isReserved (String.ofList cs) = true ∧ wanted d name = String.ofList (escaped d cs))) := by
  have hid := d.identifier_legalized name.toList
  refine ⟨d.legalized name.toList, hid, ?_⟩
  unfold wanted Dialect.sanitize
  cases hr : d.isReserved (String.ofList (d.legalized name.toList)) with
  | false => exact .inl ⟨rfl, by simp [Dialect.escapeIfReserved, hr]⟩
  | true =>
    have hfree := Dialect.isReserved_escaped hd hid
    exact .inr ⟨rfl, by simp [Dialect.escapeIfReserved, hr, Dialect.escapeReserved_ofList, hfree]⟩

theorem usable_freeName (hd : d.LetterWords) (taken : List String) (name : String) :
    d.Usable (freeName d taken (wanted d name)) := by
  obtain ⟨cs, hcs, ⟨hr, hw⟩ | ⟨hr, hw⟩⟩ := wanted_cases hd name <;> rw [hw] <;>
    rcases freeName_cases (d := d) taken _ with he | ⟨n, -, he⟩ <;> rw [he]
  · exact Dialect.usable_of_identifier hcs hr
  · rw [Dialect.withSuffix_identifier hd hcs]
    exact Dialect.usable_numbered hd hcs n
  · exact Dialect.usable_escaped hd hcs hr
  · exact Dialect.usable_escaped_numbered hd hcs n

/-! ## What holds of all names -/

/-- **All names given out so far** are of some sort. -/
def Holds (P : String → Prop) (n : Namer) : Prop := ∀ i t m, n.lookup i t = some m → P m

/-- Every name that can be given out in a dialect is of some sort. -/
def Gives (d : Dialect) (P : String → Prop) : Prop := ∀ taken name, P (freeName d taken (wanted d name))

variable {n : Namer}

theorem holds_fresh (d : Dialect) (P : String → Prop) : Holds P { dialect := d } := fun _ _ _ h => by cases h

theorem Holds.registered (h : Holds P n) (hP : Gives n.dialect P) (id name s : String) :
    P (n.register id name s).1 := by
  unfold register
  cases hl : n.lookup id s with
  | some m => exact h id s m hl
  | none => exact hP _ name

theorem Holds.register (h : Holds P n) (hP : Gives n.dialect P) (id name s : String) :
    Holds P (n.register id name s).2 := by
  intro i t m hm
  cases hl : n.lookup id s with
  | some found =>
    rw [register_of_lookup hl] at hm
    exact h i t m hm
  | none =>
    rcases (lookup_register_iff hl).1 hm with ⟨-, rfl⟩ | hm
    · exact h.registered hP id name s
    · exact h i t m hm

theorem Holds.answer (h : Holds P n) (hP : Gives n.dialect P) (c : Call) : Holds P (n.answer c).2 := by
  rcases n.answer_cases c with ⟨-, he⟩ | ⟨id, name, s, -, he⟩
  · rw [he]; exact h
  · rw [he]; exact h.register hP id name s

theorem Holds.answered (h : Holds P n) (hP : Gives n.dialect P) {c : Call} {name : String}
    (hc : (n.answer c).1 = some name) : P name := by
  rcases n.answer_cases c with ⟨-, he⟩ | ⟨id, asked, s, -, he⟩
  · rw [he] at hc; cases hc
  · rw [he] at hc; cases hc
    exact h.registered hP id asked s

theorem Holds.run : ∀ (calls : List Call) {n : Namer}, Holds P n → Gives n.dialect P →
    Holds P (n.run calls) ∧ (n.run calls).dialect = n.dialect
  | [], _, h, _ => ⟨h, rfl⟩
  | c :: calls, n, h, hP => by
    have hd := n.dialect_answer c
    obtain ⟨hrun, hdialect⟩ := Holds.run calls (h.answer hP c) (hd ▸ hP)
    exact ⟨hrun, hdialect.trans hd⟩

/-- **Every name that a call returns can be written in the language**, after any calls before it. -/
theorem answer_usable (l : Language) (calls : List Call) (c : Call) (name : String)
    (h : (((ofLanguage l).run calls).answer c).1 = some name) : (Dialect.ofLanguage l).Usable name := by
  have hgives : Gives (Dialect.ofLanguage l) (Dialect.ofLanguage l).Usable :=
    usable_freeName (Dialect.letterWords_ofLanguage l)
  obtain ⟨hrun, hdialect⟩ := (holds_fresh (Dialect.ofLanguage l) _).run calls hgives
  exact hrun.answered (by rw [hdialect]; exact hgives) h

/-- A reserved word that is taken gets its number behind the at sign. -/
theorem answer_usable_verbatim :
    (((ofLanguage .csharp).run [.create (.propertyName "Order") "a" "class"]).answer
        (.register "b" "Class" "properties/Order")).1 = some "@Class_1" ∧
      (Dialect.ofLanguage .csharp).Usable "@Class_1" := by
  have h : (((ofLanguage .csharp).run [.create (.propertyName "Order") "a" "class"]).answer
      (.register "b" "Class" "properties/Order")).1 = some "@Class_1" := by decide +kernel
  exact ⟨h, answer_usable .csharp _ _ _ h⟩

end Namer
end TrackingPlan
