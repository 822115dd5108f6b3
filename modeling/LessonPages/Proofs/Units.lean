import Mathlib.Data.List.Basic
import LessonPages.Text.Units

/-!
# Units give their text back

* `Units.toText?_ofChar_append` — a character is read off the front of its units.
* `Units.toText?_ofText` — the units of a text are read as that text.
-/

namespace LessonPages.Units

theorem toNat_valid (c : Char) : c.toNat < 0xD800 ∨ 0xDFFF < c.toNat ∧ c.toNat < 0x110000 :=
  c.valid

theorem isHigh_ofNat {n : Nat} (h : n < 0x10000) :
    isHigh (UInt16.ofNat n) = decide (0xD800 ≤ n ∧ n ≤ 0xDBFF) := by
  have hn : (UInt16.ofNat n).toNat = n := UInt16.toNat_ofNat_of_lt' h
  simp [isHigh, UInt16.le_iff_toNat_le, hn]

theorem isLow_ofNat {n : Nat} (h : n < 0x10000) :
    isLow (UInt16.ofNat n) = decide (0xDC00 ≤ n ∧ n ≤ 0xDFFF) := by
  have hn : (UInt16.ofNat n).toNat = n := UInt16.toNat_ofNat_of_lt' h
  simp [isLow, UInt16.le_iff_toNat_le, hn]

/-- A unit that is no surrogate is a character by itself. -/
theorem toText?_cons {u : UInt16} (hhigh : isHigh u = false) (hlow : isLow u = false)
    (rest : List UInt16) : toText? (u :: rest) = (toText? rest).map (Char.ofNat u.toNat :: ·) := by
  cases rest with
  | nil => simp [toText?, hhigh, hlow]
  | cons v rest => rw [toText?]; simp [hhigh, hlow]

/-- A character is read off the front of its units. -/
theorem toText?_ofChar_append (c : Char) (rest : List UInt16) :
    toText? (ofChar c ++ rest) = (toText? rest).map (c :: ·) := by
  have hvalid := toNat_valid c
  unfold ofChar
  split
  · rename_i hsmall
    have hn : (UInt16.ofNat c.toNat).toNat = c.toNat := UInt16.toNat_ofNat_of_lt' hsmall
    have hhigh : isHigh (UInt16.ofNat c.toNat) = false := by
      rw [isHigh_ofNat hsmall, decide_eq_false_iff_not]
      omega
    have hlow : isLow (UInt16.ofNat c.toNat) = false := by
      rw [isLow_ofNat hsmall, decide_eq_false_iff_not]
      omega
    rw [List.singleton_append, toText?_cons hhigh hlow, hn, Char.ofNat_toNat]
  · rename_i hlarge
    obtain ⟨v, hv⟩ : ∃ v, v = c.toNat - 0x10000 := ⟨_, rfl⟩
    have hhighLt : 0xD800 + v / 0x400 < 0x10000 := by omega
    have hlowLt : 0xDC00 + v % 0x400 < 0x10000 := by omega
    have hhigh : isHigh (UInt16.ofNat (0xD800 + v / 0x400)) = true := by
      rw [isHigh_ofNat hhighLt, decide_eq_true_iff]
      omega
    have hlow : isLow (UInt16.ofNat (0xDC00 + v % 0x400)) = true := by
      rw [isLow_ofNat hlowLt, decide_eq_true_iff]
      omega
    have hjoin : joinPair (UInt16.ofNat (0xD800 + v / 0x400))
        (UInt16.ofNat (0xDC00 + v % 0x400)) = c := by
      have hsum : 0x10000 + (0xD800 + v / 0x400 - 0xD800) * 0x400 +
          (0xDC00 + v % 0x400 - 0xDC00) = c.toNat := by omega
      rw [joinPair, UInt16.toNat_ofNat_of_lt' hhighLt, UInt16.toNat_ofNat_of_lt' hlowLt, hsum,
        Char.ofNat_toNat]
    simp only [← hv, List.cons_append, List.nil_append]
    rw [toText?, if_pos hhigh, if_pos hlow, hjoin]

theorem ofText_cons (c : Char) (t : Text) : ofText (c :: t) = ofChar c ++ ofText t :=
  List.flatMap_cons

/-- **The units of a text are read as that text.** -/
theorem toText?_ofText (t : Text) : toText? (ofText t) = some t := by
  induction t with
  | nil => rfl
  | cons c t ih =>
    rw [ofText_cons, toText?_ofChar_append, ih]
    rfl

end LessonPages.Units
