import Mathlib.Algebra.Group.Nat.Defs
import Mathlib.Data.Nat.Log
import LessonPages.Link.Bits

/-!
# Bits and letters give their phrases back

* `Bits.takeNat?_ofNat_append` — a number that its width can hold is read off the front.
* `Bits.Fits` — every number of a sequence of phrases is one that a reader can know by then;
  `Bits.fits_of_toUnits?` says that phrases which stand for units are of that kind.
* `Bits.toPhrases?_ofPhrases_append` — phrases are read back, whatever follows their end.
* `Bits.ofLetters?_toLetters` — letters are read back, with one to six zeros at the end.
-/

namespace LessonPages.Link.Bits

/-! ## Numbers -/

theorem toNat_ofNat {width n : Nat} (h : n < 2 ^ width) : toNat (ofNat width n) = n := by
  induction width generalizing n with
  | zero => simp only [Nat.pow_zero, Nat.lt_one_iff] at h; simp [ofNat, toNat, h]
  | succ width ih =>
    have hhalf : n / 2 < 2 ^ width := by rw [Nat.pow_succ] at h; omega
    rw [ofNat, toNat, ih hhalf]
    have hbit : (if (n % 2 == 1) = true then 1 else 0) = n % 2 := by
      rcases Nat.mod_two_eq_zero_or_one n with hmod | hmod <;> simp [hmod]
    omega

theorem takeNat?_ofNat_append {width n : Nat} (h : n < 2 ^ width) (rest : Bits) :
    takeNat? width (ofNat width n ++ rest) = some (n, rest) := by
  have hlen : (ofNat width n).length = width := length_ofNat width n
  have hle : width ≤ (ofNat width n ++ rest).length := by rw [List.length_append]; omega
  rw [takeNat?, if_pos hle, List.take_left' hlen, List.drop_left' hlen, toNat_ofNat h]

/-! ## Widths -/

theorem two_le_width (learned : Nat) : 2 ≤ width learned := by
  have hlog : Nat.log2 2 ≤ Nat.log2 (learned + 2) := by
    rw [Nat.log2_eq_log_two, Nat.log2_eq_log_two]
    exact Nat.log_mono_right (by omega)
  have htwo : Nat.log2 2 = 1 := by decide
  unfold width
  omega

/-- The width holds the announcements and the numbers of all runs that can be known. -/
theorem lt_two_pow_width {learned n : Nat} (h : n ≤ learned + 2) : n < 2 ^ width learned := by
  have hlog : learned + 2 < 2 ^ (Nat.log2 (learned + 2) + 1) := Nat.lt_log2_self
  unfold width
  omega

/-- Whether a reader that has learned so much can know what a phrase speaks of. -/
def FitsOne (learned : Nat) : Phrase → Prop
  | .fresh _ => True
  | .known number => Numbering.first ≤ number ∧ number ≤ learned + 2

/-- Whether a reader can know what each phrase speaks of when it comes to it. -/
def Fits (learned : Nat) : List Phrase → Prop
  | [] => True
  | phrase :: rest => FitsOne learned phrase ∧ Fits (learned + learnedBy phrase) rest

/-- Phrases that a reader of units understands speak of nothing that it cannot know. -/
theorem fits_of_toUnitsFrom {runs : Array (List UInt16)} {run : List UInt16}
    {phrases : List Phrase} {units : List UInt16}
    (h : Phrase.toUnitsFrom runs run phrases = some units) : Fits (runs.size + 1) phrases := by
  induction phrases generalizing runs run units with
  | nil => trivial
  | cons phrase rest ih =>
    cases phrase with
    | fresh unit =>
      obtain ⟨later, hlater, -⟩ := Option.map_eq_some_iff.mp h
      have hrest := ih hlater
      simp only [Array.size_push] at hrest
      exact ⟨trivial, hrest⟩
    | known number =>
      obtain ⟨found, hfound, hlater⟩ := Option.bind_eq_some_iff.mp h
      obtain ⟨later, hlater, -⟩ := Option.map_eq_some_iff.mp hlater
      have hrest := ih hlater
      simp only [Array.size_push] at hrest
      refine ⟨?_, hrest⟩
      split at hfound
      · cases hfound
      · rename_i hfirst
        refine ⟨by omega, ?_⟩
        split at hfound
        · rename_i hnewest
          simp only [Numbering.first] at hnewest
          omega
        · obtain ⟨hlt, -⟩ := Array.getElem?_eq_some_iff.mp hfound
          simp only [Numbering.first] at hlt hfirst
          omega

theorem fits_of_toUnits? {phrases : List Phrase} {units : List UInt16}
    (h : Phrase.toUnits? phrases = some units) : Fits 0 phrases := by
  cases phrases with
  | nil => trivial
  | cons phrase rest =>
    cases phrase with
    | fresh unit =>
      obtain ⟨later, hlater, -⟩ := Option.map_eq_some_iff.mp h
      exact ⟨trivial, fits_of_toUnitsFrom hlater⟩
    | known number => cases h

/-! ## Phrases -/

theorem length_lt_length_ofPhrases (learned : Nat) (phrases : List Phrase) :
    phrases.length < (ofPhrases learned phrases).length := by
  induction phrases generalizing learned with
  | nil =>
    have hwidth := two_le_width learned
    simp only [ofPhrases, length_ofNat, List.length_nil]
    omega
  | cons phrase rest ih =>
    have hrest := ih (learned + learnedBy phrase)
    have hwidth := two_le_width learned
    have hone : 1 ≤ (ofPhrase learned phrase).length := by
      cases phrase with
      | fresh unit =>
        simp only [ofPhrase]
        split <;> simp only [List.length_append, length_ofNat] <;> omega
      | known number => simp only [ofPhrase, length_ofNat]; omega
    simp only [ofPhrases, List.length_append, List.length_cons]
    omega

/-- One phrase is read off the front. -/
theorem toPhrasesFrom_ofPhrase_append {learned : Nat} {phrase : Phrase}
    (h : FitsOne learned phrase) (limit : Nat) (rest : Bits) :
    toPhrasesFrom (limit + 1) learned (ofPhrase learned phrase ++ rest) =
      (toPhrasesFrom limit (learned + learnedBy phrase) rest).map (phrase :: ·) := by
  cases phrase with
  | fresh unit =>
    have hunit : UInt16.ofNat unit.toNat = unit := UInt16.ofNat_toNat
    simp only [ofPhrase]
    split
    · rename_i hsmall
      have hbits : unit.toNat < 2 ^ 8 := by simpa using UInt16.lt_iff_toNat_lt.mp hsmall
      rw [toPhrasesFrom, List.append_assoc,
        takeNat?_ofNat_append (lt_two_pow_width (Nat.zero_le _))]
      simp only [Option.bind_some]
      rw [if_neg (by decide), if_pos (by decide), if_pos trivial, takeNat?_ofNat_append hbits]
      simp only [Option.bind_some, hunit, learnedBy]
    · have hbits : unit.toNat < 2 ^ 16 := unit.toNat_lt
      rw [toPhrasesFrom, List.append_assoc,
        takeNat?_ofNat_append (lt_two_pow_width (by omega))]
      simp only [Option.bind_some]
      rw [if_neg (by decide), if_pos (by decide), if_neg (by decide),
        takeNat?_ofNat_append hbits]
      simp only [Option.bind_some, hunit, learnedBy]
  | known number =>
    obtain ⟨hfirst, hle⟩ := h
    simp only [Numbering.first] at hfirst
    rw [toPhrasesFrom, ofPhrase, takeNat?_ofNat_append (lt_two_pow_width hle)]
    simp only [Option.bind_some]
    rw [if_neg (by omega), if_neg (by omega), learnedBy]

theorem toPhrasesFrom_ofPhrases_append {limit learned : Nat} {phrases : List Phrase}
    (hfits : Fits learned phrases) (hlimit : phrases.length < limit) (padding : Bits) :
    toPhrasesFrom limit learned (ofPhrases learned phrases ++ padding) = some phrases := by
  induction phrases generalizing limit learned with
  | nil =>
    obtain ⟨limit, rfl⟩ : ∃ l, limit = l + 1 := ⟨limit - 1, by omega⟩
    rw [ofPhrases, toPhrasesFrom, takeNat?_ofNat_append (lt_two_pow_width (Nat.le_add_left _ _))]
    rfl
  | cons phrase rest ih =>
    obtain ⟨limit, rfl⟩ : ∃ l, limit = l + 1 := ⟨limit - 1, by omega⟩
    rw [List.length_cons] at hlimit
    rw [ofPhrases, List.append_assoc, toPhrasesFrom_ofPhrase_append hfits.1,
      ih hfits.2 (by omega)]
    rfl

/-- **Phrases are read back** from their bits, whatever stands behind the announced end. -/
theorem toPhrases?_ofPhrases_append {phrases : List Phrase} (hfits : Fits 0 phrases)
    (padding : Bits) : toPhrases? (ofPhrases 0 phrases ++ padding) = some phrases := by
  have hlen := length_lt_length_ofPhrases 0 phrases
  exact toPhrasesFrom_ofPhrases_append hfits (by rw [List.length_append]; omega) padding

/-! ## Letters -/

theorem letter_mem_alphabet : ∀ a b c d e f : Bool, letter a b c d e f ∈ alphabet := by decide

theorem mem_alphabet_of_mem_toLetters {bits : Bits} {c : Char} (h : c ∈ toLetters bits) :
    c ∈ alphabet := by
  fun_induction toLetters bits with
  | case1 a b c d e f rest ih =>
    rcases List.mem_cons.mp h with rfl | h
    · exact letter_mem_alphabet a b c d e f
    · exact ih h
  | case2 | case3 | case4 | case5 | case6 | case7 =>
    rw [List.mem_singleton.mp h]
    exact letter_mem_alphabet ..

/-- A letter is read as the six bits it stands for. -/
theorem bits_idxOf_letter : ∀ a b c d e f : Bool,
    (ofNat 6 (alphabet.idxOf (letter a b c d e f))).reverse = [a, b, c, d, e, f] := by decide

theorem ofLetters?_cons_letter (a b c d e f : Bool) (rest : List Char) :
    ofLetters? (letter a b c d e f :: rest) =
      (ofLetters? rest).map ([a, b, c, d, e, f] ++ ·) := by
  rw [ofLetters?, if_pos (letter_mem_alphabet a b c d e f), bits_idxOf_letter]

/-- **Letters are read back** as the bits they were made of, with zeros behind the last of them. -/
theorem ofLetters?_toLetters (bits : Bits) : ∃ zeros, zeros ≠ [] ∧
    ofLetters? (toLetters bits) = some (bits ++ zeros) := by
  fun_induction toLetters bits with
  | case1 a b c d e f rest ih =>
    obtain ⟨zeros, hzeros, hread⟩ := ih
    exact ⟨zeros, hzeros, by rw [ofLetters?_cons_letter, hread]; rfl⟩
  | case2 a b c d e => exact ⟨[false], by simp, by rw [ofLetters?_cons_letter]; rfl⟩
  | case3 a b c d => exact ⟨[false, false], by simp, by rw [ofLetters?_cons_letter]; rfl⟩
  | case4 a b c => exact ⟨[false, false, false], by simp, by rw [ofLetters?_cons_letter]; rfl⟩
  | case5 a b =>
    exact ⟨[false, false, false, false], by simp, by rw [ofLetters?_cons_letter]; rfl⟩
  | case6 a =>
    exact ⟨[false, false, false, false, false], by simp, by rw [ofLetters?_cons_letter]; rfl⟩
  | case7 =>
    exact ⟨[false, false, false, false, false, false], by simp,
      by rw [ofLetters?_cons_letter]; rfl⟩

end LessonPages.Link.Bits
