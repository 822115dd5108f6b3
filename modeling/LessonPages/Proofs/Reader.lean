import Mathlib.Algebra.Group.Nat.Defs
import Mathlib.Data.Nat.Log
import LessonPages.Link.Basic
import LessonPages.Proofs.Bits
import LessonPages.Proofs.Phrase
import LessonPages.Proofs.Units

/-!
# What the editor reads behind a link

The reader of the online editor works in one pass. It takes numbers off the bits of the letters and
keeps the runs it has met, the last of them, the width of the next number, and how many more runs
may be counted before that width grows. `Bits.ofLetters?`, `Bits.toPhrases?` and `Phrase.toUnits?`
take the same letters apart in three passes, of which each undoes one of the writer.

* `Reader` and `Reader.text?` — the one-pass reader: six bits a letter, numbers with the low bit
  first, a width that grows by a countdown, and zeros for bits that are not there.
* `Reader.Counts` — the countdown agrees with the width of the writer; `Reader.Counts.count` is its
  step.
* `Reader.units?_of_toUnits?` — whatever the three passes understand, the one-pass reader reads as
  the same units.
* `Link.text?_address` — the code behind a link is read back, and no two codes share a link.
-/

namespace LessonPages.Link

/-! ## The reader -/

/-- What the reader holds between two numbers (lz-string's `_decompress`): the runs in the order of
their numbers, the last run, the width of the next number, and how many runs may be counted before
the width grows. -/
structure Reader where
  runs : Array (List UInt16)
  last : List UInt16
  width : Nat
  room : Nat

namespace Reader

open Bits (toNat ofNat alphabet)

/-- The bits of a letter, the highest first. A letter that is not of the alphabet counts as zeros,
and a space as a plus sign, which some senders make of it. -/
def bitsOfLetter (c : Char) : Bits :=
  let c := if c = ' ' then '+' else c
  if c ∈ alphabet then (ofNat 6 (alphabet.idxOf c)).reverse else List.replicate 6 false

/-- The bits of all letters. -/
def bitsOf (letters : Text) : Bits := letters.flatMap bitsOfLetter

/-- Takes a number off the front. Behind the last bit there are zeros. -/
def take (width : Nat) (bits : Bits) : Nat × Bits := (toNat (bits.take width), bits.drop width)

/-- The reader behind the first unit. -/
def start (unit : UInt16) : Reader := ⟨#[[unit]], [unit], 3, 4⟩

/-- Counts one run (`_decompress`, its `enlargeIn`). When there is no more room the width grows by
one, and there is room for as many runs as the old width could tell apart. -/
def count (r : Reader) : Reader :=
  if r.room = 1 then { r with width := r.width + 1, room := 2 ^ r.width }
  else { r with room := r.room - 1 }

/-- Lists a run under the next number. -/
def learn (r : Reader) (run : List UInt16) : Reader := { r.count with runs := r.runs.push run }

/-- The run of a number. The next number stands for the run that is about to be listed: the last
run and its own first unit. -/
def run? (r : Reader) (number : Nat) : Option (List UInt16) :=
  match r.runs[number - Numbering.first]? with
  | some run => some run
  | none =>
    if number = r.runs.size + Numbering.first then some (r.last ++ r.last.take 1) else none

/-- Takes up a run that was asked for, and lists the last one together with its first unit. -/
def follow (r : Reader) (run : List UInt16) : Reader :=
  { r.learn (r.last ++ run.take 1) with last := run }

/-- Reads on behind some units, up to the announced end (`_decompress`, its loop). Where the bits
run out before it nothing is read at all. Every round takes at least one bit, so that their number
is limit enough. -/
def unitsFrom : Nat → Reader → List UInt16 → Bits → Option (List UInt16)
  | 0, _, _, _ => some []
  | limit + 1, r, done, bits =>
    if bits = [] then some []
    else
      let (number, rest) := take r.width bits
      if number = 2 then some done
      else if number < 2 then
        let (unit, rest) := take (if number = 0 then 8 else 16) rest
        let r := r.learn [UInt16.ofNat unit]
        unitsFrom limit (r.follow [UInt16.ofNat unit]) (done ++ [UInt16.ofNat unit]) rest
      else
        match r.run? number with
        | none => none
        | some run => unitsFrom limit (r.follow run) (done ++ run) rest

/-- The units that letters stand for (lz-string's `decompressFromEncodedURIComponent`). The first
number has two bits; a text has letters. -/
def units? (letters : Text) : Option (List UInt16) :=
  if letters = [] then none
  else
    let (number, rest) := take 2 (bitsOf letters)
    if number = 2 then some []
    else if number < 2 then
      let (unit, rest) := take (if number = 0 then 8 else 16) rest
      unitsFrom rest.length (start (UInt16.ofNat unit)) [UInt16.ofNat unit] rest
    else none

/-- The text that letters stand for. -/
def text? (letters : Text) : Option Text := (units? letters).bind Units.toText?

/-! ## The countdown -/

/-- The reader's width is that of the writer, and its room is what is left until the writer's width
grows. -/
structure Counts (r : Reader) (learned : Nat) : Prop where
  width_eq : r.width = Bits.width learned
  room_eq : r.room + (learned + 2) = 2 ^ r.width
  room_pos : 0 < r.room

theorem counts_start (unit : UInt16) : (start unit).Counts 2 :=
  ⟨show 3 = Bits.width 2 by decide, show 4 + (2 + 2) = 2 ^ 3 by decide, show 0 < 4 by decide⟩

theorem width_eq_of_bounds {learned k : Nat} (hlow : 2 ^ k ≤ learned + 2)
    (hhigh : learned + 2 < 2 ^ (k + 1)) : Bits.width learned = k + 1 := by
  have hlog : Nat.log2 (learned + 2) = k := (Nat.log2_eq_iff (by omega)).mpr ⟨hlow, hhigh⟩
  rw [Bits.width, hlog]

theorem two_pow_pred_width_le (learned : Nat) : 2 ^ (Bits.width learned - 1) ≤ learned + 2 := by
  rw [Bits.width, Nat.add_sub_cancel]
  exact Nat.log2_self_le (by omega)

/-- One more run is counted alike on both sides. -/
theorem Counts.count {r : Reader} {learned : Nat} (h : r.Counts learned) :
    r.count.Counts (learned + 1) := by
  have hwidth := Bits.two_le_width learned
  have hlow := two_pow_pred_width_le learned
  rw [← h.width_eq] at hlow hwidth
  have hroom := h.room_eq
  have hpos := h.room_pos
  have hdouble : 2 ^ (r.width + 1) = 2 ^ r.width + 2 ^ r.width := by rw [Nat.pow_succ]; omega
  unfold Reader.count
  split
  · rename_i hone
    refine ⟨(width_eq_of_bounds ?_ ?_).symm, ?_, Nat.two_pow_pos _⟩
    · omega
    · omega
    · show 2 ^ r.width + (learned + 1 + 2) = 2 ^ (r.width + 1)
      omega
  · rename_i hmore
    obtain ⟨k, hk⟩ : ∃ k, r.width = k + 1 := ⟨r.width - 1, by omega⟩
    rw [hk, Nat.add_sub_cancel] at hlow
    rw [hk] at hroom
    refine ⟨?_, ?_, ?_⟩
    · rw [width_eq_of_bounds (k := k) (by omega) (by omega), ← hk]
    · show r.room - 1 + (learned + 1 + 2) = 2 ^ r.width
      rw [hk]
      omega
    · show 0 < r.room - 1
      omega

theorem Counts.learn {r : Reader} {learned : Nat} (h : r.Counts learned) (run : List UInt16) :
    (r.learn run).Counts (learned + 1) :=
  ⟨h.count.width_eq, h.count.room_eq, h.count.room_pos⟩

theorem Counts.follow {r : Reader} {learned : Nat} (h : r.Counts learned) (run : List UInt16) :
    (r.follow run).Counts (learned + 1) :=
  ⟨h.count.width_eq, h.count.room_eq, h.count.room_pos⟩

@[simp] theorem runs_learn (r : Reader) (run : List UInt16) :
    (r.learn run).runs = r.runs.push run := rfl

@[simp] theorem last_learn (r : Reader) (run : List UInt16) : (r.learn run).last = r.last := by
  unfold learn count
  split <;> rfl

@[simp] theorem runs_follow (r : Reader) (run : List UInt16) :
    (r.follow run).runs = r.runs.push (r.last ++ run.take 1) := rfl

@[simp] theorem last_follow (r : Reader) (run : List UInt16) : (r.follow run).last = run := rfl

/-! ## One pass and three passes -/

theorem take_of_takeNat? {width number : Nat} {bits rest : Bits}
    (h : Bits.takeNat? width bits = some (number, rest)) :
    width ≤ bits.length ∧ take width bits = (number, rest) := by
  unfold Bits.takeNat? at h
  split at h
  · rename_i hle
    cases h
    exact ⟨hle, rfl⟩
  · cases h

theorem length_of_takeNat? {width number : Nat} {bits rest : Bits}
    (h : Bits.takeNat? width bits = some (number, rest)) :
    rest.length + width = bits.length := by
  obtain ⟨hle, htake⟩ := take_of_takeNat? h
  have hrest : bits.drop width = rest := congrArg Prod.snd htake
  rw [← hrest, List.length_drop]
  omega

/-- The run of a number is the one that the reader of phrases finds. -/
theorem run?_of_met {r : Reader} {number : Nat} {found : List UInt16}
    (h : (if number < Numbering.first then none
      else if number = r.runs.size + Numbering.first then some (r.last ++ r.last.take 1)
      else r.runs[number - Numbering.first]?) = some found) : r.run? number = some found := by
  unfold run?
  split at h
  · cases h
  · split at h
    · rename_i hnewest
      have hnone : r.runs[number - Numbering.first]? = none := by
        rw [hnewest, Nat.add_sub_cancel]
        exact Array.getElem?_size
      rw [hnone]
      simp only
      rw [if_pos hnewest, h]
    · rw [h]

/-- What the reader of bits and the reader of phrases understand together, the one-pass reader reads
in the same way from any point on. -/
theorem unitsFrom_of_toPhrasesFrom {limit learned : Nat} {bits : Bits} {phrases : List Phrase}
    (hphrases : Bits.toPhrasesFrom limit learned bits = some phrases) :
    ∀ {r : Reader} {units done : List UInt16} {bound : Nat}, r.Counts learned →
      Phrase.toUnitsFrom r.runs r.last phrases = some units → bits.length ≤ bound →
      unitsFrom bound r done bits = some (done ++ units) := by
  induction limit generalizing learned bits phrases with
  | zero => cases hphrases
  | succ limit ih =>
    intro r units done bound hcounts hunits hbound
    rw [Bits.toPhrasesFrom] at hphrases
    obtain ⟨⟨number, rest⟩, htake, hphrases⟩ := Option.bind_eq_some_iff.mp hphrases
    have hlen := length_of_takeNat? htake
    obtain ⟨hle, htake⟩ := take_of_takeNat? htake
    have hwidth := Bits.two_le_width learned
    obtain ⟨bound, rfl⟩ : ∃ b, bound = b + 1 := ⟨bound - 1, by omega⟩
    have hbits : bits ≠ [] := by
      rintro rfl
      simp only [List.length_nil] at hle
      omega
    rw [unitsFrom, if_neg hbits, hcounts.width_eq, htake]
    simp only at hphrases ⊢
    split at hphrases
    · rename_i hend
      cases hphrases
      cases hunits
      rw [if_pos hend, List.append_nil]
    · rename_i hgoes
      rw [if_neg hgoes]
      split at hphrases
      · rename_i hfresh
        obtain ⟨⟨unit, rest'⟩, htake', hphrases⟩ := Option.bind_eq_some_iff.mp hphrases
        have hlen' := length_of_takeNat? htake'
        obtain ⟨later, hlater, rfl⟩ := Option.map_eq_some_iff.mp hphrases
        obtain ⟨behind, hbehind, rfl⟩ := Option.map_eq_some_iff.mp hunits
        rw [if_pos hfresh, (take_of_takeNat? htake').2]
        simp only
        have hcounts' := (hcounts.learn [UInt16.ofNat unit]).follow [UInt16.ofNat unit]
        have hbound' : rest'.length ≤ bound := by omega
        rw [ih hlater hcounts' (by simpa using hbehind) hbound', List.append_assoc,
          List.singleton_append]
      · rename_i hknown
        obtain ⟨later, hlater, rfl⟩ := Option.map_eq_some_iff.mp hphrases
        obtain ⟨found, hfound, hunits⟩ := Option.bind_eq_some_iff.mp hunits
        obtain ⟨behind, hbehind, rfl⟩ := Option.map_eq_some_iff.mp hunits
        rw [if_neg hknown, run?_of_met hfound]
        simp only
        have hbound' : rest.length ≤ bound := by omega
        rw [ih hlater (hcounts.follow found) (by simpa using hbehind) hbound', List.append_assoc]

theorem bitsOf_of_ofLetters? {letters : Text} {bits : Bits}
    (h : Bits.ofLetters? letters = some bits) : bitsOf letters = bits := by
  induction letters generalizing bits with
  | nil => cases h; rfl
  | cons c rest ih =>
    rw [Bits.ofLetters?] at h
    split at h
    · rename_i hmem
      obtain ⟨later, hlater, rfl⟩ := Option.map_eq_some_iff.mp h
      have hspace : c ≠ ' ' := by
        rintro rfl
        exact absurd hmem (by decide)
      have hletter : bitsOfLetter c = (ofNat 6 (alphabet.idxOf c)).reverse := by
        simp only [bitsOfLetter]
        rw [if_neg hspace, if_pos hmem]
      rw [bitsOf, List.flatMap_cons, hletter, ← ih hlater]
      rfl
    · cases h

/-- **One pass reads what three passes understand.** -/
theorem units?_of_toUnits? {letters : Text} {bits : Bits} {phrases : List Phrase}
    {units : List UInt16} (hletters : Bits.ofLetters? letters = some bits)
    (hphrases : Bits.toPhrases? bits = some phrases) (hunits : Phrase.toUnits? phrases = some units) :
    units? letters = some units := by
  rw [Bits.toPhrases?] at hphrases
  obtain ⟨limit, hlimit⟩ : ∃ l, bits.length = l + 1 := by
    cases bits with
    | nil => cases hphrases
    | cons b rest => exact ⟨rest.length, rfl⟩
  have hne : letters ≠ [] := by
    rintro rfl
    cases hletters
    cases hlimit
  rw [hlimit, Bits.toPhrasesFrom] at hphrases
  obtain ⟨⟨number, rest⟩, htake, hphrases⟩ := Option.bind_eq_some_iff.mp hphrases
  have hwidth : Bits.width 0 = 2 := by decide
  rw [hwidth] at htake
  rw [units?, if_neg hne, bitsOf_of_ofLetters? hletters, (take_of_takeNat? htake).2]
  simp only at hphrases ⊢
  split at hphrases
  · rename_i hend
    cases hphrases
    cases hunits
    rw [if_pos hend]
  · rename_i hgoes
    rw [if_neg hgoes]
    split at hphrases
    · rename_i hfresh
      obtain ⟨⟨unit, rest'⟩, htake', hphrases⟩ := Option.bind_eq_some_iff.mp hphrases
      obtain ⟨later, hlater, rfl⟩ := Option.map_eq_some_iff.mp hphrases
      obtain ⟨behind, hbehind, rfl⟩ := Option.map_eq_some_iff.mp hunits
      rw [if_pos hfresh, (take_of_takeNat? htake').2]
      simp only
      rw [unitsFrom_of_toPhrasesFrom hlater (counts_start _) hbehind (Nat.le_refl _),
        List.singleton_append]
    · -- the first phrase of anything that stands for units is a fresh unit
      obtain ⟨later, hlater, rfl⟩ := Option.map_eq_some_iff.mp hphrases
      cases hunits

end Reader

/-! ## Links -/

/-- The letters behind a link stand for the units of the code. -/
theorem units?_payload (code : Text) :
    Reader.units? (payload code) = some (Units.ofText code) := by
  have hunits := Phrase.toUnits?_ofUnits (Units.ofText code)
  obtain ⟨zeros, -, hletters⟩ :=
    Bits.ofLetters?_toLetters (Bits.ofPhrases 0 (Phrase.ofUnits (Units.ofText code)))
  exact Reader.units?_of_toUnits? hletters
    (Bits.toPhrases?_ofPhrases_append (Bits.fits_of_toUnits? hunits) zeros) hunits

theorem text?_payload (code : Text) : Reader.text? (payload code) = some code := by
  rw [Reader.text?, units?_payload, Option.bind_some, Units.toText?_ofText]

/-- **A link holds its code**: it starts with the address it was made for, the editor reads the code
from what stands behind that address, and no two codes share a link. -/
theorem text?_address (base code : Text) :
    base <+: address base code ∧
      Reader.text? ((address base code).drop base.length) = some code ∧
      Function.Injective (address base) := by
  refine ⟨List.prefix_append _ _, ?_, ?_⟩
  · rw [address, List.drop_left]
    exact text?_payload code
  · intro code₁ code₂ heq
    have hpayload : payload code₁ = payload code₂ := List.append_cancel_left heq
    have hread := text?_payload code₁
    rw [hpayload, text?_payload code₂] at hread
    cases hread
    rfl

end LessonPages.Link
