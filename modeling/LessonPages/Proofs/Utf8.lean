import LessonPages.Proofs.Units
import LessonPages.Text.Utf8

/-!
# Bytes give their text back

The bytes of a longer character are a first byte and digits of six bits. The first byte announces how many
digits follow and how the first of them is bounded, and each digit is added to the value of the
character; so the digits are read one by one, however many they are.

* `Utf8.decodeFrom_digits` — the digits that a pending character owes are read.
* `Utf8.decodeFrom_encodeChar_append` — a character is read off the front of its bytes.
* `Utf8.decode_encode` — the bytes of a text are read as that text.
-/

namespace LessonPages.Utf8

variable {p : Pending} {position digit lead : Nat} {more : List Nat}

/-- The byte that goes on with a digit of six bits. -/
def digitByte (digit : Nat) : UInt8 := UInt8.ofNat (0x80 + digit)

/-- The number that is made of a value and digits of six bits behind it. -/
def withDigits (value : Nat) (digits : List Nat) : Nat :=
  digits.foldl (fun v digit => v * 0x40 + digit) value

theorem toNat_ofNat {n : Nat} (h : n < 0x100) : (UInt8.ofNat n).toNat = n := UInt8.toNat_ofNat_of_lt' h

theorem toNat_digitByte (h : digit < 0x40) : (digitByte digit).toNat = 0x80 + digit :=
  toNat_ofNat (by omega)

theorem value_next (h : digit < 0x40) :
    (p.next (digitByte digit)).value = p.value * 0x40 + digit := by
  rw [Pending.next, toNat_digitByte h, Nat.add_sub_cancel_left]

/-! ## Digits -/

/-- Whether the next byte of a pending character can be that of a digit. -/
def Pending.Admits (p : Pending) (digit : Nat) : Prop :=
  p.low.toNat ≤ 0x80 + digit ∧ 0x80 + digit ≤ p.high.toNat

theorem Pending.Admits.bounds (h : p.Admits digit) (hdigit : digit < 0x40) :
    p.low ≤ digitByte digit ∧ digitByte digit ≤ p.high := by
  rwa [UInt8.le_iff_toNat_le, UInt8.le_iff_toNat_le, toNat_digitByte hdigit]

/-- Behind a first digit any other digit may follow. -/
theorem Pending.admits_next {b : UInt8} (hdigit : digit < 0x40) : (p.next b).Admits digit :=
  ⟨show 0x80 ≤ 0x80 + digit by omega, show 0x80 + digit ≤ 0xBF by omega⟩

/-- **A pending character takes the digits that it owes.** -/
theorem decodeFrom_digits (howed : p.owed = more.length + 1) (hfirst : p.Admits digit)
    (hdigits : ∀ x ∈ digit :: more, x < 0x40) (rest : Bytes) :
    decodeFrom position (some p) ((digit :: more).map digitByte ++ rest) =
      (decodeFrom (position + (more.length + 1)) none rest).map
        (Char.ofNat (withDigits p.value (digit :: more)) :: ·) := by
  induction more generalizing p position digit with
  | nil =>
    have hdigit := hdigits digit List.mem_cons_self
    rw [List.map_cons, List.map_nil, List.cons_append, List.nil_append, decodeFrom,
      if_pos (hfirst.bounds hdigit), if_pos (show p.owed = 1 from howed), value_next hdigit]
    rfl
  | cons next more ih =>
    obtain ⟨hdigit, hmore⟩ := List.forall_mem_cons.mp hdigits
    have hnext : (p.next (digitByte digit)).Admits next :=
      Pending.admits_next (hmore next List.mem_cons_self)
    have hrest := @ih (p.next (digitByte digit)) (position + 1) next (by simp [Pending.next, howed])
      hnext hmore
    rw [List.map_cons, List.cons_append, decodeFrom, if_pos (hfirst.bounds hdigit),
      if_neg (by simp [howed]), hrest, value_next hdigit, List.length_cons, Nat.add_right_comm,
      Nat.add_assoc position]
    rfl

/-! ## First bytes -/

/-- A byte that can start a longer character. -/
theorem decodeFrom_lead (hlead : 0xC2 ≤ lead ∧ lead < 0xF5)
    (hstart : Pending.start? (UInt8.ofNat lead) = some p) (bytes : Bytes) :
    decodeFrom position none (UInt8.ofNat lead :: bytes) = decodeFrom (position + 1) (some p) bytes := by
  have hlarge : ¬ UInt8.ofNat lead < 0x80 := by
    rw [UInt8.lt_iff_toNat_lt, toNat_ofNat (by omega)]
    exact Nat.not_lt.mpr (Nat.le_trans (by decide) hlead.1)
  rw [decodeFrom, if_neg hlarge, hstart]

/-- What the first byte of a longer character announces. -/
theorem start?_eq (hlead : 0xC2 ≤ lead ∧ lead < 0xF5) :
    Pending.start? (UInt8.ofNat lead) = some
      (if lead < 0xE0 then ⟨UInt8.ofNat lead, 1, lead - 0xC0, 1, 0x80, 0xBF⟩
      else if lead < 0xF0 then ⟨UInt8.ofNat lead, 1, lead - 0xE0, 2,
        if lead = 0xE0 then 0xA0 else 0x80, if lead = 0xED then 0x9F else 0xBF⟩
      else ⟨UInt8.ofNat lead, 1, lead - 0xF0, 3,
        if lead = 0xF0 then 0x90 else 0x80, if lead = 0xF4 then 0x8F else 0xBF⟩) := by
  have hn := toNat_ofNat (n := lead) (by omega)
  have heq : ∀ b : UInt8, UInt8.ofNat lead = b ↔ lead = b.toNat := by
    intro b
    rw [← UInt8.toNat_inj, hn]
  simp only [Pending.start?, UInt8.lt_iff_toNat_lt, hn, heq, UInt8.reduceToNat]
  rw [if_neg (by omega)]
  split
  · rfl
  · split
    · rfl
    · rw [if_pos hlead.2]

/-! ## Characters and texts -/

/-- A character of several bytes is read, if its first byte announces it. -/
theorem decodeFrom_long {c : Char} (hlead : 0xC2 ≤ lead ∧ lead < 0xF5)
    (hstart : Pending.start? (UInt8.ofNat lead) = some p) (howed : p.owed = more.length + 1)
    (hfirst : p.Admits digit) (hdigits : ∀ x ∈ digit :: more, x < 0x40)
    (hvalue : withDigits p.value (digit :: more) = c.toNat) (rest : Bytes) :
    decodeFrom position none (UInt8.ofNat lead :: (digit :: more).map digitByte ++ rest) =
      (decodeFrom (position + (more.length + 2)) none rest).map (c :: ·) := by
  rw [List.cons_append, decodeFrom_lead hlead hstart, decodeFrom_digits howed hfirst hdigits, hvalue,
    Char.ofNat_toNat, Nat.add_assoc, Nat.add_comm 1]

/-- **A character is read off the front of its bytes.** -/
theorem decodeFrom_encodeChar_append (c : Char) (rest : Bytes) :
    decodeFrom position none (encodeChar c ++ rest) =
      (decodeFrom (position + (encodeChar c).length) none rest).map (c :: ·) := by
  have hvalid := Units.toNat_valid c
  unfold encodeChar
  dsimp only
  split
  · rename_i hone
    have hn := toNat_ofNat (n := c.toNat) (by omega)
    have hsmall : UInt8.ofNat c.toNat < 0x80 := by rwa [UInt8.lt_iff_toNat_lt, hn]
    rw [List.singleton_append, decodeFrom, if_pos hsmall, hn, Char.ofNat_toNat]
    rfl
  · split
    · have hlead : 0xC2 ≤ 0xC0 + c.toNat / 0x40 ∧ 0xC0 + c.toNat / 0x40 < 0xF5 := by omega
      have hstart := start?_eq hlead
      rw [if_pos (by omega)] at hstart
      refine @decodeFrom_long _ position (c.toNat % 0x40) _ [] c hlead hstart rfl ?_ ?_ ?_ rest
      · exact ⟨show 0x80 ≤ 0x80 + c.toNat % 0x40 by omega, show 0x80 + c.toNat % 0x40 ≤ 0xBF by omega⟩
      · simp only [List.mem_singleton, forall_eq]
        omega
      · simp only [withDigits, List.foldl_cons, List.foldl_nil]
        omega
    · split
      · have hlead : 0xC2 ≤ 0xE0 + c.toNat / 0x1000 ∧ 0xE0 + c.toNat / 0x1000 < 0xF5 := by omega
        have hstart := start?_eq hlead
        rw [if_neg (by omega), if_pos (by omega)] at hstart
        refine @decodeFrom_long _ position (c.toNat / 0x40 % 0x40) _ [c.toNat % 0x40] c hlead hstart
          rfl ?_ ?_ ?_ rest
        · -- the tighter bounds keep out what is shorter, and what is no character
          unfold Pending.Admits
          dsimp only
          constructor
          · split <;> simp only [UInt8.reduceToNat] <;> omega
          · split <;> simp only [UInt8.reduceToNat] <;> omega
        · simp only [List.forall_mem_cons, List.not_mem_nil, false_imp_iff, implies_true, and_true]
          omega
        · simp only [withDigits, List.foldl_cons, List.foldl_nil]
          omega
      · have hlead : 0xC2 ≤ 0xF0 + c.toNat / 0x40000 ∧ 0xF0 + c.toNat / 0x40000 < 0xF5 := by omega
        have hstart := start?_eq hlead
        rw [if_neg (by omega), if_neg (by omega)] at hstart
        refine @decodeFrom_long _ position (c.toNat / 0x1000 % 0x40) _
          [c.toNat / 0x40 % 0x40, c.toNat % 0x40] c hlead hstart rfl ?_ ?_ ?_ rest
        · unfold Pending.Admits
          dsimp only
          constructor
          · split <;> simp only [UInt8.reduceToNat] <;> omega
          · split <;> simp only [UInt8.reduceToNat] <;> omega
        · simp only [List.forall_mem_cons, List.not_mem_nil, false_imp_iff, implies_true, and_true]
          omega
        · simp only [withDigits, List.foldl_cons, List.foldl_nil]
          omega

theorem decodeFrom_encode (position : Nat) (t : Text) : decodeFrom position none (encode t) = .ok t := by
  induction t generalizing position with
  | nil => rfl
  | cons c t ih =>
    have hcons : encode (c :: t) = encodeChar c ++ encode t := List.flatMap_cons
    rw [hcons, decodeFrom_encodeChar_append, ih]
    rfl

/-- **The bytes of a text are read as that text.** -/
theorem decode_encode (t : Text) : decode (encode t) = .ok t := decodeFrom_encode 0 t

end LessonPages.Utf8
