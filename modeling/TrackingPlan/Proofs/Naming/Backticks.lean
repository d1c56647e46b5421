import TrackingPlan.Proofs.Naming.Usable
/-!
# Backticks — a word is written in one way only

A dialect that escapes by backticks writes every word either bare or between backticks, as the word is reserved or not
(`Spelt`): a number goes behind the bare word, and the whole is escaped anew.  So names that differ are different words
too, whatever the reserved words are, as long as no backtick is in one (`backticks_iff_reserved`).
-/
namespace TrackingPlan
namespace Dialect

variable {d : Dialect} {cs : List Char}

/-- **The word that a name spells**: backticks around it are set aside. -/
def withoutBackticks (name : String) : String := String.ofList (stripBackticks name.toList)

/-- **A name that spells an identifier**, between backticks if that is reserved and else bare. -/
def Spelt (d : Dialect) (name : String) : Prop := ∃ cs, d.Identifier cs ∧ name = d.escapeIfReserved (String.ofList cs)

/-- **Reserved words by their letter, and none with a backtick in it**, in a dialect that escapes by these. -/
structure Backticked (d : Dialect) : Prop where
  escape : d.escape = .backticks
  caseSensitive : d.caseSensitive = true
  bare : ∀ w ∈ d.reserved, '\x60' ∉ w.toList

theorem escapeIfReserved_of_not {w : String} (h : d.isReserved w = false) : d.escapeIfReserved w = w :=
  if_neg (Bool.eq_false_iff.1 h)

namespace Backticked

variable (hd : d.Backticked)

include hd

theorem isReserved_iff (w : String) : d.isReserved w = true ↔ w ∈ d.reserved := by
  unfold isReserved
  rw [if_pos hd.caseSensitive]
  exact List.contains_iff_mem

theorem escapeReserved_eq (w : String) : d.escapeReserved w = "\x60" ++ w ++ "\x60" := by
  unfold escapeReserved
  rw [hd.escape]

theorem escape_of_reserved {w : String} (h : d.isReserved w = true) : d.escapeIfReserved w = "\x60" ++ w ++ "\x60" := by
  rw [escapeIfReserved, if_pos h, hd.escapeReserved_eq]

/-- What is between backticks is not escaped again. -/
theorem escape_escaped (w : String) : d.escapeIfReserved (d.escapeReserved w) = d.escapeReserved w := by
  refine if_neg fun hres => ?_
  have hmem := hd.bare _ ((hd.isReserved_iff _).1 hres)
  rw [hd.escapeReserved_eq] at hmem
  simp at hmem

theorem withoutBackticks_escape (h : d.Identifier cs) :
    withoutBackticks (d.escapeIfReserved (String.ofList cs)) = String.ofList cs := by
  unfold withoutBackticks
  cases hr : d.isReserved (String.ofList cs) with
  | true =>
    have hchars : ("\x60" ++ String.ofList cs ++ "\x60").toList = '\x60' :: (cs ++ ['\x60']) := by simp
    rw [hd.escape_of_reserved hr, hchars, stripBackticks_backticks h]
  | false => rw [escapeIfReserved_of_not hr, String.toList_ofList, stripBackticks_identifier h]

theorem wanted_eq (name : String) :
    Namer.wanted d name = d.escapeIfReserved (String.ofList (d.legalized name.toList)) := by
  unfold Namer.wanted sanitize
  cases hr : d.isReserved (String.ofList (d.legalized name.toList)) with
  | true =>
    rw [escapeIfReserved, escapeIfReserved, if_pos hr]
    exact hd.escape_escaped _
  | false => rw [escapeIfReserved_of_not hr, escapeIfReserved_of_not hr]

/-- **A number goes behind the bare word**, which is escaped anew. -/
theorem withSuffix_eq (h : d.Identifier cs) (n : Nat) :
    d.withSuffix (d.escapeIfReserved (String.ofList cs)) n = d.escapeIfReserved (String.ofList (numbered cs n)) := by
  have hword := congrArg String.toList (hd.withoutBackticks_escape h)
  rw [withoutBackticks, String.toList_ofList, String.toList_ofList] at hword
  unfold withSuffix withEnding
  rw [hd.escape, hword]
  rfl

/-- **Every name that is given out is spelt so.** -/
theorem gives_spelt : Namer.Gives d d.Spelt := by
  intro taken name
  have hid := d.identifier_legalized name.toList
  rw [hd.wanted_eq]
  rcases Namer.freeName_cases (d := d) taken _ with he | ⟨n, -, he⟩ <;> rw [he]
  · exact ⟨_, hid, rfl⟩
  · exact ⟨_, hid.numbered n, hd.withSuffix_eq hid n⟩

/-- A name is written between backticks if the word is reserved, and bare if not. -/
theorem spelling {m : String} (h : d.Spelt m) :
    (m = "\x60" ++ withoutBackticks m ++ "\x60" ↔ withoutBackticks m ∈ d.reserved) ∧
      (m = withoutBackticks m ↔ withoutBackticks m ∉ d.reserved) := by
  obtain ⟨cs, hcs, rfl⟩ := h
  rw [hd.withoutBackticks_escape hcs]
  have hlonger : ∀ w : String, "\x60" ++ w ++ "\x60" ≠ w := fun w he => by
    have hlen := congrArg (fun v : String => v.toList.length) he
    simp only [String.toList_append, List.length_append, show "\x60".toList.length = 1 from rfl] at hlen
    omega
  cases hr : d.isReserved (String.ofList cs) with
  | true =>
    have hmem := (hd.isReserved_iff _).1 hr
    rw [hd.escape_of_reserved hr]
    exact ⟨iff_of_true rfl hmem, iff_of_false (hlonger _) (not_not_intro hmem)⟩
  | false =>
    have hmem : String.ofList cs ∉ d.reserved := fun h => Bool.eq_false_iff.1 hr ((hd.isReserved_iff _).2 h)
    rw [escapeIfReserved_of_not hr]
    exact ⟨iff_of_false (fun he => hlonger _ he.symm) hmem, iff_of_true rfl hmem⟩

theorem eq_of_withoutBackticks {m m' : String} (h : d.Spelt m) (h' : d.Spelt m')
    (he : withoutBackticks m = withoutBackticks m') : m = m' := by
  obtain ⟨cs, hcs, rfl⟩ := h
  obtain ⟨cs', hcs', rfl⟩ := h'
  rw [hd.withoutBackticks_escape hcs, hd.withoutBackticks_escape hcs'] at he
  rw [he]

end Backticked
end Dialect

namespace Namer

open Dialect (withoutBackticks Backticked)

/-- **Kotlin names are different words**, after any calls and with any reserved words that hold no backtick: the names
of different ids of a scope differ without their backticks too, and a name is written between backticks just when the
word inside is reserved. -/
theorem backticks_iff_reserved (words : List String) (hwords : ∀ w ∈ words, '\x60' ∉ w.toList) (calls : List Call)
    (s : String) :
    (∀ i j m m', (run { dialect := { Dialect.kotlin with reserved := words } } calls).lookup i s = some m →
        (run { dialect := { Dialect.kotlin with reserved := words } } calls).lookup j s = some m' → i ≠ j →
          withoutBackticks m ≠ withoutBackticks m') ∧
      ∀ i m, (run { dialect := { Dialect.kotlin with reserved := words } } calls).lookup i s = some m →
        (m = "\x60" ++ withoutBackticks m ++ "\x60" ↔ withoutBackticks m ∈ words) ∧
        (m = withoutBackticks m ↔ withoutBackticks m ∉ words) := by
  have hd : Backticked { Dialect.kotlin with reserved := words } := ⟨rfl, rfl, hwords⟩
  have hspelt := ((holds_fresh _ _).run calls hd.gives_spelt).1
  have horderly := (orderly_fresh { Dialect.kotlin with reserved := words }).run calls
  refine ⟨fun i j m m' hi hj hij he => ?_, fun i m hi => hd.spelling (hspelt i s m hi)⟩
  cases hd.eq_of_withoutBackticks (hspelt i s m hi) (hspelt j s m' hj) he
  exact hij (horderly.injective s i j m hi hj)

/-- A reserved word twice, with its first number reserved too and asked for as it stands. -/
def reservedNumbers : List Call :=
  [.register "a" "class" defaultScope, .register "b" "class" defaultScope, .register "c" "class_1" defaultScope]

/-- The word with its first number is reserved here, so it is escaped; with one more behind it is not. -/
theorem backticks_iff_reserved_numbered :
    (∀ w ∈ ["class", "class_1"], '\x60' ∉ w.toList) ∧
      (run { dialect := { Dialect.kotlin with reserved := ["class", "class_1"] } } reservedNumbers).lookup "b"
        defaultScope = some "\x60class_1\x60" ∧
      (run { dialect := { Dialect.kotlin with reserved := ["class", "class_1"] } } reservedNumbers).lookup "c"
        defaultScope = some "class_1_1" ∧
      withoutBackticks "\x60class_1\x60" ≠ withoutBackticks "class_1_1" ∧
      withoutBackticks "\x60class_1\x60" ∈ ["class", "class_1"] ∧
      withoutBackticks "class_1_1" ∉ ["class", "class_1"] := by
  have hwords : ∀ w ∈ ["class", "class_1"], '\x60' ∉ w.toList := by decide +kernel
  have hb : (run { dialect := { Dialect.kotlin with reserved := ["class", "class_1"] } } reservedNumbers).lookup "b"
      defaultScope = some "\x60class_1\x60" := by decide +kernel
  have hc : (run { dialect := { Dialect.kotlin with reserved := ["class", "class_1"] } } reservedNumbers).lookup "c"
      defaultScope = some "class_1_1" := by decide +kernel
  obtain ⟨hapart, hspelling⟩ := backticks_iff_reserved ["class", "class_1"] hwords reservedNumbers defaultScope
  have hescaped : "\x60class_1\x60" = "\x60" ++ withoutBackticks "\x60class_1\x60" ++ "\x60" := by decide +kernel
  have hbare : "class_1_1" = withoutBackticks "class_1_1" := by decide +kernel
  exact ⟨hwords, hb, hc, hapart "b" "c" _ _ hb hc (by decide), (hspelling "b" _ hb).1.1 hescaped,
    (hspelling "c" _ hc).2.1 hbare⟩

end Namer
end TrackingPlan
