import LessonPages.Link.Phrase

/-!
# Phrases as bits

The second half of the compression: phrases become bits, and bits become letters that a link may
hold. A number is written with its low bit first, in as many bits as the runs learned by then can
need; each letter carries six bits, the first of them the highest.

* `Bits.ofPhrases`, `Bits.toPhrases?` — phrases as bits and back.
* `Bits.toLetters`, `Bits.ofLetters?` — bits as letters and back.
-/

namespace LessonPages.Link

/-- A sequence of bits. -/
abbrev Bits := List Bool

namespace Bits

/-- The low bits of a number, the lowest first. -/
def ofNat : Nat → Nat → Bits
  | 0, _ => []
  | width + 1, n => (n % 2 == 1) :: ofNat width (n / 2)

/-- The number that bits stand for, the lowest first. -/
def toNat : Bits → Nat
  | [] => 0
  | b :: rest => (if b then 1 else 0) + 2 * toNat rest

/-- The width of a number once some runs are learned. It starts at two bits, which hold the three
announcements, and grows by one whenever the runs fill what the width can tell apart. -/
def width (learned : Nat) : Nat := Nat.log2 (learned + 2) + 1

/-- How many runs a phrase brings: a fresh unit is a run of its own. -/
def learnedBy : Phrase → Nat
  | .fresh _ => 2
  | .known _ => 1

/-- The bits of one phrase: a fresh unit is announced by its size, 8 or 16 bits. -/
def ofPhrase (learned : Nat) : Phrase → Bits
  | .fresh unit =>
    if unit < 0x100 then ofNat (width learned) 0 ++ ofNat 8 unit.toNat
    else ofNat (width learned) 1 ++ ofNat 16 unit.toNat
  | .known number => ofNat (width learned) number

/-- The bits of phrases, the end announced behind them (lz-string's `_compress`, what it writes). -/
def ofPhrases (learned : Nat) : List Phrase → Bits
  | [] => ofNat (width learned) 2
  | phrase :: rest => ofPhrase learned phrase ++ ofPhrases (learned + learnedBy phrase) rest

/-- Reads a number of a given width off the front. -/
def takeNat? (width : Nat) (bits : Bits) : Option (Nat × Bits) :=
  if width ≤ bits.length then some (toNat (bits.take width), bits.drop width) else none

/-- Reads phrases up to the announced end; at most as many as the first argument says. -/
def toPhrasesFrom (limit learned : Nat) (bits : Bits) : Option (List Phrase) :=
  match limit with
  | 0 => none
  | limit + 1 =>
    (takeNat? (width learned) bits).bind fun (number, rest) =>
      if number = 2 then some []
      else if number < 2 then
        (takeNat? (if number = 0 then 8 else 16) rest).bind fun (unit, rest) =>
          (toPhrasesFrom limit (learned + 2) rest).map (.fresh (UInt16.ofNat unit) :: ·)
      else (toPhrasesFrom limit (learned + 1) rest).map (.known number :: ·)

/-- The phrases that bits hold; what follows the announced end is padding. -/
def toPhrases? (bits : Bits) : Option (List Phrase) := toPhrasesFrom bits.length 0 bits

/-- The letters in the order of the six bits they stand for (lz-string's `keyStrUriSafe`). -/
def alphabet : List Char :=
  "ABCDEFGHIJKLMNOPQRSTUVWXYZabcdefghijklmnopqrstuvwxyz0123456789+-".toList

/-- The letter of six bits, the first of them the highest. -/
def letter (a b c d e f : Bool) : Char := alphabet.getD (toNat [f, e, d, c, b, a]) 'A'

/-- The bits as letters, with zeros behind the last bit: at least one and at most six. -/
def toLetters : Bits → List Char
  | a :: b :: c :: d :: e :: f :: rest => letter a b c d e f :: toLetters rest
  | [a, b, c, d, e] => [letter a b c d e false]
  | [a, b, c, d] => [letter a b c d false false]
  | [a, b, c] => [letter a b c false false false]
  | [a, b] => [letter a b false false false false]
  | [a] => [letter a false false false false false]
  | [] => [letter false false false false false false]

/-- The bits of letters, unless one of them is not of the alphabet. -/
def ofLetters? : List Char → Option Bits
  | [] => some []
  | c :: rest =>
    if c ∈ alphabet then
      (ofLetters? rest).map ((ofNat 6 (alphabet.idxOf c)).reverse ++ ·)
    else none

@[simp] theorem length_ofNat (w n : Nat) : (ofNat w n).length = w := by
  induction w generalizing n with
  | zero => rfl
  | succ w ih => simp [ofNat, ih]

theorem toLetters_ne_nil (bits : Bits) : toLetters bits ≠ [] := by
  unfold toLetters; split <;> simp

end Bits

end LessonPages.Link
