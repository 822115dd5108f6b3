import LessonPages.Proofs.Reader
import LessonPages.Text.Blank

/-!
# How a link is written

The usual writer of links works in one pass, as the reader does. It keeps the runs it has met,
counts down to the growth of the width, and pushes the bits of each number into a buffer that is
emptied with every sixth of them. The number in the buffer picks a letter, of which there are
sixty-five. `Link.payload` takes three passes and has sixty-four letters, and makes the same of all
code: the buffer never holds more than its bits, so the last letter is never picked.

* `Packer` — the buffer; `Packer.Sound` — it holds no more than its bits, which `Packer.Sound.put`
  keeps with each bit.
* `Writer` and `Writer.letters?` — the one-pass writer.
* `Writer.Follows` — the writer between two units and the parse of the same units, step by step:
  `Writer.Follows.extend`, `Writer.Follows.cut`, and over a whole run `Writer.Follows.finish_foldl`.
* `Writer.letters?_eq_payload` — both write the same letters.
* `Link.markdown_fits` — a link fits into an address and into a page.
-/

namespace LessonPages.Link

/-! ## The buffer -/

/-- Bits on their way to letters (lz-string's `context_data_val`, `context_data_position` and
`context_data`): the number that the bits at hand make, the first of them the highest, how many they
are, and the numbers of the letters before them. -/
structure Packer where
  value : Nat
  position : Nat
  written : List Nat

namespace Packer

variable {p : Packer} {bits : Bits}

/-- No bit has been taken. -/
def empty : Packer := ⟨0, 0, []⟩

/-- Takes one bit. The sixth one completes a letter. -/
def put (p : Packer) (bit : Bool) : Packer :=
  if p.position = 5 then ⟨0, 0, p.written ++ [2 * p.value + bit.toNat]⟩
  else ⟨2 * p.value + bit.toNat, p.position + 1, p.written⟩

/-- Takes the low bits of a number, the lowest first. -/
def putNat (p : Packer) : Nat → Nat → Packer
  | 0, _ => p
  | width + 1, n => (p.put (n % 2 == 1)).putNat width (n / 2)

/-- Takes zeros until they complete a letter, and gives the numbers of all letters. -/
def close (p : Packer) : List Nat := ((List.replicate (6 - p.position) false).foldl put p).written

/-- A packer that has taken some bits. -/
def ofBits (bits : Bits) : Packer := bits.foldl put empty

theorem putNat_eq (p : Packer) (width n : Nat) :
    p.putNat width n = (Bits.ofNat width n).foldl put p := by
  induction width generalizing p n with
  | zero => rfl
  | succ width ih => exact ih _ _

theorem putNat_ofBits (bits : Bits) (width n : Nat) :
    (ofBits bits).putNat width n = ofBits (bits ++ Bits.ofNat width n) := by
  rw [putNat_eq, ofBits, ofBits, List.foldl_append]

/-- The buffer holds fewer bits than a letter takes, and no more than these. Every letter that is
written has a number of six bits. -/
structure Sound (p : Packer) : Prop where
  position_lt : p.position < 6
  value_lt : p.value < 2 ^ p.position
  written_lt : ∀ n ∈ p.written, n < 64

theorem sound_empty : empty.Sound := ⟨by decide, by decide, by simp [empty]⟩

/-- **A bit keeps the buffer sound.** -/
theorem Sound.put (h : p.Sound) (bit : Bool) : (p.put bit).Sound := by
  have hposition := h.position_lt
  have hvalue := h.value_lt
  have hbit := Bool.toNat_le bit
  unfold Packer.put
  split
  · rename_i hlast
    rw [hlast] at hvalue
    refine ⟨show 0 < 6 by decide, show 0 < 2 ^ 0 by decide, fun n hn => ?_⟩
    rcases List.mem_append.mp hn with hn | hn
    · exact h.written_lt n hn
    · rw [List.mem_singleton.mp hn]
      omega
  · refine ⟨by show p.position + 1 < 6; omega, ?_, h.written_lt⟩
    show 2 * p.value + bit.toNat < 2 ^ (p.position + 1)
    rw [Nat.pow_succ]
    omega

theorem Sound.foldl (h : p.Sound) (bits : Bits) : (bits.foldl Packer.put p).Sound := by
  induction bits generalizing p with
  | nil => exact h
  | cons bit bits ih => exact ih (h.put bit)

theorem sound_ofBits (bits : Bits) : (ofBits bits).Sound := sound_empty.foldl bits

theorem Sound.close_lt (h : p.Sound) : ∀ n ∈ p.close, n < 64 := (h.foldl _).written_lt

/-! ## Letters -/

/-- The letters in the order of their numbers. -/
def letters : List Char :=
  "ABCDEFGHIJKLMNOPQRSTUVWXYZabcdefghijklmnopqrstuvwxyz0123456789+-$".toList

/-- The letters of some numbers, unless there is none for one of them. -/
def letters? (numbers : List Nat) : Option Text := numbers.mapM (letters[·]?)

/-- Six bits are a letter. -/
theorem foldl_put_six (written : List Nat) (a b c d e f : Bool) (rest : Bits) :
    (a :: b :: c :: d :: e :: f :: rest).foldl put ⟨0, 0, written⟩ =
      rest.foldl put ⟨0, 0, written ++ [Bits.toNat [f, e, d, c, b, a]]⟩ := by
  have hnumber : Bits.toNat [f, e, d, c, b, a] =
      2 * (2 * (2 * (2 * (2 * (2 * 0 + a.toNat) + b.toNat) + c.toNat) + d.toNat) + e.toNat) +
        f.toNat := by
    cases a <;> cases b <;> cases c <;> cases d <;> cases e <;> cases f <;> rfl
  rw [hnumber]
  rfl

theorem letters?_of_lt {numbers : List Nat} (h : ∀ n ∈ numbers, n < 64) :
    letters? numbers = some (numbers.map (Bits.alphabet.getD · 'A')) := by
  have hletter : ∀ n < 64, letters[n]? = some (Bits.alphabet.getD n 'A') := by decide +kernel
  induction numbers with
  | nil => rfl
  | cons n rest ih =>
    have hrest := ih fun m hm => h m (List.mem_cons_of_mem _ hm)
    rw [letters?] at hrest
    rw [letters?, List.mapM_cons, hletter n (h n List.mem_cons_self), hrest]
    rfl

/-- Bits that do not complete a letter stay in the buffer. -/
theorem position_foldl {bits : Bits} (h : p.position + bits.length < 6) :
    (bits.foldl put p).position = p.position + bits.length := by
  induction bits generalizing p with
  | nil => rfl
  | cons bit bits ih =>
    rw [List.length_cons] at h ⊢
    have hput : (p.put bit).position = p.position + 1 := by
      rw [put, if_neg (by omega)]
    rw [List.foldl_cons, ih (by omega), hput]
    omega

theorem close_foldl_of_lt {bits : Bits} (h : bits.length < 6) (written : List Nat) :
    (bits.foldl put ⟨0, 0, written⟩).close =
      ((bits ++ List.replicate (6 - bits.length) false).foldl put ⟨0, 0, written⟩).written := by
  have hposition : (bits.foldl put ⟨0, 0, written⟩).position = bits.length := by
    rw [position_foldl (by rwa [Nat.zero_add]), Nat.zero_add]
  rw [close, hposition, List.foldl_append]

theorem map_foldl_six (written : List Nat) (a b c d e f : Bool) :
    ([a, b, c, d, e, f].foldl put ⟨0, 0, written⟩).written.map (Bits.alphabet.getD · 'A') =
      written.map (Bits.alphabet.getD · 'A') ++ [Bits.letter a b c d e f] := by
  rw [foldl_put_six, List.foldl_nil, List.map_append]
  rfl

/-- The letters of all numbers are those of the bits, with zeros behind the last of them. -/
theorem map_close_foldl (bits : Bits) (written : List Nat) :
    (bits.foldl put ⟨0, 0, written⟩).close.map (Bits.alphabet.getD · 'A') =
      written.map (Bits.alphabet.getD · 'A') ++ Bits.toLetters bits := by
  fun_induction Bits.toLetters bits generalizing written with
  | case1 a b c d e f rest ih =>
    rw [foldl_put_six, ih, List.map_append, List.append_assoc]
    rfl
  | case2 a b c d e =>
    rw [close_foldl_of_lt (by simp)]
    exact map_foldl_six written a b c d e false
  | case3 a b c d =>
    rw [close_foldl_of_lt (by simp)]
    exact map_foldl_six written a b c d false false
  | case4 a b c =>
    rw [close_foldl_of_lt (by simp)]
    exact map_foldl_six written a b c false false false
  | case5 a b =>
    rw [close_foldl_of_lt (by simp)]
    exact map_foldl_six written a b false false false false
  | case6 a =>
    rw [close_foldl_of_lt (by simp)]
    exact map_foldl_six written a false false false false false
  | case7 =>
    rw [close_foldl_of_lt (by simp)]
    exact map_foldl_six written false false false false false false

/-- **The buffer writes the letters of its bits**, and never the last of its own letters. -/
theorem letters?_close_ofBits (bits : Bits) :
    letters? (ofBits bits).close = some (Bits.toLetters bits) := by
  rw [letters?_of_lt (sound_ofBits bits).close_lt, ofBits, empty, map_close_foldl]
  rfl

end Packer

/-! ## The writer -/

/-- What the writer holds between two units (lz-string's `_compress`): the runs with their numbers,
the next number, the units that have a number but are not spelled out yet, the run at hand, the
width of the next number, how many runs may be counted before the width grows, and the bits. -/
structure Writer where
  runs : Numbering
  next : Nat
  unspelled : List (List UInt16)
  run : List UInt16
  width : Nat
  room : Nat
  bits : Packer

namespace Writer

/-- The writer before the first unit. -/
def start : Writer := ⟨∅, Numbering.first, [], [], 2, 2, .empty⟩

/-- Counts one run (lz-string's `context_enlargeIn`). When there is no more room the width grows by
one, and there is room for as many runs as the old width could tell apart. -/
def count (w : Writer) : Writer :=
  if w.room = 1 then { w with width := w.width + 1, room := 2 ^ w.width }
  else { w with room := w.room - 1 }

/-- Gives a run the next number. -/
def learn (w : Writer) (run : List UInt16) : Writer :=
  { w with runs := w.runs.insert run w.next, next := w.next + 1 }

/-- Gives a unit a number if it has none. It is to be spelled out before the number is used. -/
def meet (w : Writer) (unit : UInt16) : Writer :=
  match w.runs[[unit]]? with
  | some _ => w
  | none => { w.learn [unit] with unspelled := [unit] :: w.unspelled }

/-- Writes a unit out, its size before it. -/
def spell (w : Writer) (unit : UInt16) : Writer :=
  if unit < 0x100 then { w with bits := (w.bits.putNat w.width 0).putNat 8 unit.toNat }
  else { w with bits := (w.bits.putNat w.width 1).putNat 16 unit.toNat }

/-- Writes the run at hand: its unit if that is not spelled out yet, its number otherwise. -/
def emit (w : Writer) : Writer :=
  if w.run ∈ w.unspelled then
    { (w.spell (w.run.headD 0)).count.count with unspelled := w.unspelled.erase w.run }
  else { w with bits := w.bits.putNat w.width (w.runs[w.run]?.getD 0) }.count

/-- Takes one unit (`_compress`, one turn of its loop): it prolongs the run at hand if there is such
a run, and starts a new one otherwise. -/
def step (w : Writer) (unit : UInt16) : Writer :=
  let met := w.meet unit
  match met.runs[met.run ++ [unit]]? with
  | some _ => { met with run := met.run ++ [unit] }
  | none => { met.emit.learn (met.run ++ [unit]) with run := [unit] }

/-- The numbers of all letters (`_compress`, behind its loop): the run at hand, the end announced
behind it, and zeros. -/
def finish (w : Writer) : List Nat :=
  let w := if w.run = [] then w else w.emit
  (w.bits.putNat w.width 2).close

/-- The numbers of the letters for some units (`_compress`). -/
def numbers (units : List UInt16) : List Nat := (units.foldl step start).finish

/-- The letters for some units, unless there is none for one of the numbers. -/
def letters? (units : List UInt16) : Option Text := Packer.letters? (numbers units)

variable {w : Writer} {learned : Nat} {bits : Bits} {phrase : Phrase} {unit : UInt16}

/-! ## What a step keeps -/

/-- The part of the writer that counts, as a reader. -/
def counter (w : Writer) : Reader := ⟨#[], [], w.width, w.room⟩

theorem counter_count (w : Writer) : w.count.counter = w.counter.count := by
  unfold count Reader.count
  split <;> rename_i hroom
  · rw [if_pos (show w.counter.room = 1 from hroom)]
    rfl
  · rw [if_neg (show ¬w.counter.room = 1 from hroom)]
    rfl

/-- The writer, when `learned` runs are counted and `bits` are written: its next number is the one
that the numbering gives, its width is the one for so many runs, and its buffer has taken these
bits. -/
structure Keeps (w : Writer) (learned : Nat) (bits : Bits) : Prop where
  next_eq : w.next = w.runs.size + Numbering.first
  counts : w.counter.Counts learned
  bits_eq : w.bits = .ofBits bits

/-- What the writer holds for a phrase: the unit of a fresh one is still to be spelled out, and a
number is that of the run at hand. -/
def Announces (w : Writer) : Phrase → Prop
  | .fresh unit => w.run = [unit] ∧ w.run ∈ w.unspelled
  | .known number => w.runs[w.run]? = some number ∧ w.run ∉ w.unspelled

theorem keeps_start : start.Keeps 0 [] :=
  ⟨rfl, ⟨show 2 = Bits.width 0 by decide, show 2 + (0 + 2) = 2 ^ 2 by decide,
    show 0 < 2 by decide⟩, rfl⟩

@[simp] theorem runs_emit (w : Writer) : w.emit.runs = w.runs := by
  unfold emit spell count
  split_ifs <;> rfl

theorem unspelled_count (w : Writer) : w.count.unspelled = w.unspelled := by
  unfold count
  split <;> rfl

theorem unspelled_emit (w : Writer) : w.emit.unspelled = w.unspelled.erase w.run := by
  unfold emit
  split
  · rfl
  · rename_i hspelled
    rw [unspelled_count, List.erase_of_not_mem hspelled]

theorem Keeps.learn (h : w.Keeps learned bits) {run : List UInt16} (hnone : w.runs[run]? = none) :
    (w.learn run).runs = w.runs.learn run ∧ (w.learn run).Keeps learned bits := by
  have hruns : (w.learn run).runs = w.runs.learn run := by
    rw [Numbering.learn, ← h.next_eq]
    rfl
  refine ⟨hruns, ?_, h.counts, h.bits_eq⟩
  rw [hruns, Numbering.size_learn hnone]
  show w.next + 1 = _
  rw [h.next_eq]
  omega

theorem Keeps.width_eq (h : w.Keeps learned bits) : w.width = Bits.width learned :=
  h.counts.width_eq

theorem Keeps.count (h : w.Keeps learned bits) : w.count.Keeps (learned + 1) bits := by
  have hcounts : w.count.counter.Counts (learned + 1) := by
    rw [counter_count]
    exact h.counts.count
  have hkept : w.count.next = w.next ∧ w.count.runs = w.runs ∧ w.count.bits = w.bits := by
    unfold Writer.count
    split <;> exact ⟨rfl, rfl, rfl⟩
  obtain ⟨hnext, hruns, hbits⟩ := hkept
  exact ⟨by rw [hnext, hruns, h.next_eq], hcounts, by rw [hbits, h.bits_eq]⟩

/-- A number is written in as many bits as the runs learned by then can need. -/
theorem Keeps.putNat (h : w.Keeps learned bits) (n : Nat) :
    w.bits.putNat w.width n = .ofBits (bits ++ Bits.ofNat (Bits.width learned) n) := by
  rw [h.bits_eq, h.width_eq, Packer.putNat_ofBits]

theorem Keeps.spell (h : w.Keeps learned bits) (unit : UInt16) :
    (w.spell unit).Keeps learned (bits ++ Bits.ofPhrase learned (.fresh unit)) := by
  unfold Writer.spell Bits.ofPhrase
  simp only [h.putNat, Packer.putNat_ofBits, List.append_assoc]
  split
  · exact ⟨h.next_eq, h.counts, rfl⟩
  · exact ⟨h.next_eq, h.counts, rfl⟩

/-- **What is written for the run at hand is its phrase.** -/
theorem Keeps.emit (h : w.Keeps learned bits) (hphrase : w.Announces phrase) :
    w.emit.Keeps (learned + Bits.learnedBy phrase) (bits ++ Bits.ofPhrase learned phrase) := by
  unfold Writer.emit
  cases phrase with
  | fresh unit =>
    obtain ⟨hrun, hunspelled⟩ := hphrase
    rw [if_pos hunspelled, hrun, List.headD_cons]
    have hspelled := (h.spell unit).count.count
    exact ⟨hspelled.next_eq, hspelled.counts, hspelled.bits_eq⟩
  | known number =>
    obtain ⟨hnumber, hspelled⟩ := hphrase
    have hwritten : ({ w with bits := w.bits.putNat w.width number } : Writer).Keeps learned
        (bits ++ Bits.ofPhrase learned (.known number)) := ⟨h.next_eq, h.counts, h.putNat number⟩
    rw [if_neg hspelled, hnumber]
    exact hwritten.count

/-- Nothing is left but the run at hand: it is written, the end behind it. -/
theorem Keeps.finish (h : w.Keeps learned bits) (hphrase : w.Announces phrase) (hrun : w.run ≠ []) :
    w.finish = (Packer.ofBits (bits ++ Bits.ofPhrases learned [phrase])).close := by
  rw [Writer.finish]
  simp only [if_neg hrun]
  rw [(h.emit hphrase).putNat, List.append_assoc]
  rfl

/-- A unit is met as the parse meets it. -/
theorem Keeps.meet (h : w.Keeps learned bits) (unit : UInt16) :
    (w.meet unit).runs = (w.runs.single unit).2 ∧ (w.meet unit).Keeps learned bits := by
  unfold Writer.meet Numbering.single
  cases hmet : w.runs[[unit]]? with
  | some number => exact ⟨rfl, h⟩
  | none =>
    obtain ⟨hruns, hlearn⟩ := h.learn hmet
    exact ⟨hruns, hlearn.next_eq, hlearn.counts, hlearn.bits_eq⟩

/-! ## The writer and the parse -/

/-- The writer between two units, with a phrase at hand: all that is left to spell out is the unit
of that phrase. -/
structure Follows (w : Writer) (phrase : Phrase) (learned : Nat) (bits : Bits) : Prop
    extends w.Keeps learned bits where
  announces : w.Announces phrase
  spelled : w.unspelled.erase w.run = []

/-- A unit that is met leaves the phrase at hand as it is. -/
theorem Announces.meet (h : w.Announces phrase) (hlisted : w.runs[w.run]? ≠ none)
    (unit : UInt16) : (w.meet unit).Announces phrase := by
  unfold Writer.meet
  cases hmet : w.runs[[unit]]? with
  | some number => exact h
  | none =>
    have hother : [unit] ≠ w.run := fun heq => hlisted (heq ▸ hmet)
    cases phrase with
    | fresh first => exact ⟨h.1, List.mem_cons_of_mem _ h.2⟩
    | known number =>
      refine ⟨?_, ?_⟩
      · show (w.runs.insert [unit] w.next)[w.run]? = some number
        rw [Numbering.getElem?_insert_of_ne hother]
        exact h.1
      · intro hmem
        rcases List.mem_cons.mp hmem with heq | hmem
        · exact hother heq.symm
        · exact h.2 hmem

/-- Behind the phrase at hand only the unit that is met is to be spelled out, if it is new. -/
theorem Follows.unspelled_meet (h : w.Follows phrase learned bits) (hlisted : w.runs[w.run]? ≠ none)
    (unit : UInt16) :
    (∃ place, (w.runs.single unit).1 = .known place ∧
      (w.meet unit).unspelled.erase w.run = []) ∨
    ((w.runs.single unit).1 = .fresh unit ∧
      (w.meet unit).unspelled.erase w.run = [[unit]]) := by
  unfold Writer.meet Numbering.single
  cases hmet : w.runs[[unit]]? with
  | some place => exact .inl ⟨place, rfl, h.spelled⟩
  | none =>
    have hother : [unit] ≠ w.run := fun heq => hlisted (heq ▸ hmet)
    refine .inr ⟨rfl, ?_⟩
    show ([unit] :: w.unspelled).erase w.run = [[unit]]
    rw [List.erase_cons_tail (by simpa using hother), h.spelled]

variable {list : List (List UInt16)} {prev : List UInt16}

/-- **The run at hand goes on** in the writer as it does in the parse, and nothing is written. -/
theorem Follows.extend (h : w.Follows phrase learned bits)
    (hparsing : Phrase.Parsing w.runs list prev w.run phrase) {number : Nat}
    (hfound : (w.runs.single unit).2[w.run ++ [unit]]? = some number) :
    (w.step unit).runs = (w.runs.single unit).2 ∧ (w.step unit).run = w.run ++ [unit] ∧
      (w.step unit).Follows (.known number) learned bits := by
  obtain ⟨place, hplace, hsingle⟩ := hparsing.single_of_found hfound
  rw [hsingle] at hfound ⊢
  obtain ⟨old, rfl⟩ := hparsing.known_of_found hfound
  have hmeet : w.meet unit = w := by rw [Writer.meet, hplace]
  have hstep : w.step unit = { w with run := w.run ++ [unit] } := by
    rw [Writer.step]
    simp only [hmeet, hfound]
  have hunspelled : w.unspelled = [] := by
    rw [← List.erase_of_not_mem h.announces.2]
    exact h.spelled
  rw [hstep]
  refine ⟨rfl, rfl, ⟨⟨h.next_eq, h.counts, h.bits_eq⟩, ⟨hfound, ?_⟩, ?_⟩⟩
  · rw [hunspelled]
    exact List.not_mem_nil
  · show w.unspelled.erase _ = []
    rw [hunspelled]
    rfl

/-- A run that cannot go on is written, and the longer one gets the next number. -/
theorem Follows.step_of_none (h : w.Follows phrase learned bits) (hlisted : w.runs[w.run]? ≠ none)
    (hnone : (w.runs.single unit).2[w.run ++ [unit]]? = none) :
    (w.step unit).runs = (w.runs.single unit).2.learn (w.run ++ [unit]) ∧
      (w.step unit).run = [unit] ∧
      (w.step unit).unspelled = (w.meet unit).unspelled.erase w.run ∧
      (w.step unit).Keeps (learned + Bits.learnedBy phrase)
        (bits ++ Bits.ofPhrase learned phrase) := by
  obtain ⟨hruns, hmet⟩ := h.toKeeps.meet unit
  have hrun : (w.meet unit).run = w.run := by
    unfold Writer.meet
    split <;> rfl
  have hstep : w.step unit = { (w.meet unit).emit.learn (w.run ++ [unit]) with run := [unit] } := by
    rw [Writer.step]
    simp only [hrun, hruns, hnone]
  have hfree : (w.meet unit).emit.runs[w.run ++ [unit]]? = none := by
    rw [runs_emit, hruns, hnone]
  obtain ⟨hlearnt, hkeeps⟩ := (hmet.emit (h.announces.meet hlisted unit)).learn hfree
  rw [runs_emit, hruns] at hlearnt
  rw [hstep]
  refine ⟨hlearnt, rfl, ?_, ⟨hkeeps.next_eq, hkeeps.counts, hkeeps.bits_eq⟩⟩
  rw [← hrun]
  exact unspelled_emit _

/-- **Where a run ends** in the parse, the writer writes its phrase and starts the next one. -/
theorem Follows.cut (h : w.Follows phrase learned bits) (hlisted : w.runs[w.run]? ≠ none)
    (hparsing : Phrase.Parsing ((w.runs.single unit).2.learn (w.run ++ [unit])) list w.run [unit]
      (w.runs.single unit).1)
    (hnone : (w.runs.single unit).2[w.run ++ [unit]]? = none) :
    (w.step unit).runs = (w.runs.single unit).2.learn (w.run ++ [unit]) ∧
      (w.step unit).run = [unit] ∧
      (w.step unit).Follows (w.runs.single unit).1 (learned + Bits.learnedBy phrase)
        (bits ++ Bits.ofPhrase learned phrase) := by
  obtain ⟨hruns, hrun, hunspelled, hkeeps⟩ := h.step_of_none hlisted hnone
  have hstands := hparsing.standsFor
  refine ⟨hruns, hrun, ⟨hkeeps, ?_, ?_⟩⟩
  · rcases h.unspelled_meet hlisted unit with ⟨place, hphrase, hleft⟩ | ⟨hphrase, hleft⟩
    · rw [hphrase] at hstands ⊢
      rw [Announces, hruns, hrun, hunspelled, hleft]
      exact ⟨hstands, List.not_mem_nil⟩
    · rw [hphrase, Announces, hrun, hunspelled, hleft]
      exact ⟨rfl, List.mem_singleton_self _⟩
  · rw [hunspelled, hrun]
    rcases h.unspelled_meet hlisted unit with ⟨place, -, hleft⟩ | ⟨-, hleft⟩
    · rw [hleft]
      rfl
    · rw [hleft]
      exact List.erase_cons_head ..

/-- **The letters of what is left**: the writer writes the phrases that the parse finds. -/
theorem Follows.finish_foldl (h : w.Follows phrase learned bits)
    (hparsing : Phrase.Parsing w.runs list prev w.run phrase) (units : List UInt16) :
    (units.foldl step w).finish =
      (Packer.ofBits
        (bits ++ Bits.ofPhrases learned (Phrase.ofUnitsFrom w.runs w.run phrase units))).close := by
  induction units generalizing w learned bits list prev phrase with
  | nil => exact h.toKeeps.finish h.announces hparsing.run_ne_nil
  | cons unit rest ih =>
    rw [List.foldl_cons, Phrase.ofUnitsFrom]
    split
    · rename_i number hfound
      obtain ⟨hruns, hrun, hfollows⟩ := h.extend hparsing hfound
      have hnext := hparsing.extend hfound
      rw [← hruns, ← hrun] at hnext ⊢
      exact ih hfollows hnext
    · rename_i hnone
      have hnext := Phrase.Parsing.ofCut hparsing.lists hparsing.units hparsing.run_mem
        hparsing.run_ne_nil hnone
      have hlisted : w.runs[w.run]? ≠ none := fun hfree =>
        hparsing.lists.not_mem hfree hparsing.run_mem
      obtain ⟨hruns, hrun, hfollows⟩ := h.cut hlisted hnext hnone
      rw [← hruns, ← hrun] at hnext
      rw [ih hfollows hnext, hruns, hrun, Bits.ofPhrases, List.append_assoc]

/-- The first unit is taken up, and nothing is written yet. -/
theorem follows_start (unit : UInt16) :
    (start.step unit).runs = Numbering.learn ∅ [unit] ∧ (start.step unit).run = [unit] ∧
      (start.step unit).Follows (.fresh unit) 0 [] := by
  have hnew : start.runs[[unit]]? = none := Std.TreeMap.getElem?_emptyc
  have hmeet : start.meet unit = { start.learn [unit] with unspelled := [[unit]] } := by
    rw [Writer.meet, hnew]
    rfl
  obtain ⟨hruns, hkeeps⟩ := keeps_start.learn hnew
  have hfound : (start.meet unit).runs[(start.meet unit).run ++ [unit]]? = some start.next := by
    rw [hmeet]
    exact Std.TreeMap.getElem?_insert_self
  have hstep : start.step unit =
      { start.learn [unit] with unspelled := [[unit]], run := [unit] } := by
    rw [Writer.step]
    simp only [hfound]
    rw [hmeet]
    rfl
  rw [hstep]
  exact ⟨hruns, rfl, ⟨⟨hkeeps.next_eq, hkeeps.counts, hkeeps.bits_eq⟩,
    ⟨rfl, List.mem_singleton_self _⟩, List.erase_cons_head ..⟩⟩

/-- **The phrases of all units** are what the writer writes. -/
theorem numbers_eq (units : List UInt16) :
    numbers units = (Packer.ofBits (Bits.ofPhrases 0 (Phrase.ofUnits units))).close := by
  cases units with
  | nil => rfl
  | cons unit rest =>
    obtain ⟨hruns, hrun, hfollows⟩ := follows_start unit
    rw [numbers, List.foldl_cons, Phrase.ofUnits]
    simp only [Phrase.single_empty]
    cases rest with
    | nil => exact hfollows.toKeeps.finish hfollows.announces (by rw [hrun]; simp)
    | cons next rest =>
      obtain ⟨hnone, hparsing⟩ := Phrase.single_learn_empty unit next
      have hlisted : (start.step unit).runs[(start.step unit).run]? ≠ none := by
        rw [hruns, hrun, Numbering.learn, Std.TreeMap.getElem?_insert_self]
        simp
      rw [← hruns, ← hrun] at hnone hparsing ⊢
      obtain ⟨hruns', hrun', hfollows'⟩ := hfollows.cut hlisted hparsing hnone
      rw [← hruns', ← hrun'] at hparsing
      rw [List.foldl_cons, hfollows'.finish_foldl hparsing, hruns', hrun', Phrase.ofUnitsFrom]
      simp only [hnone]
      rw [Bits.ofPhrases, List.nil_append]

/-- **One pass and three passes write the same letters.** -/
theorem letters?_eq_payload (code : Text) : letters? (Units.ofText code) = some (payload code) := by
  rw [letters?, numbers_eq, Packer.letters?_close_ofBits]
  rfl

end Writer

/-! ## Links in addresses and pages -/

/-- What may stand in a payload does no harm in an address or in a page. -/
theorem mem_payload {code : Text} {c : Char} (h : c ∈ payload code) :
    (c.isAlphanum ∨ c = '+' ∨ c = '-') ∧ c ≠ '$' ∧ c ≠ ']' ∧ c ≠ ')' ∧ isBlank c = false := by
  have hletters : Bits.alphabet.all (fun c => (c.isAlphanum || c == '+' || c == '-') &&
      c != '$' && c != ']' && c != ')' && !isBlank c) = true := by decide +kernel
  have hletter := List.all_eq_true.mp hletters c (Bits.mem_alphabet_of_mem_toLetters h)
  simpa [and_assoc, or_assoc] using hletter

theorem markdown_eq (code : Text) :
    markdown editor code =
      "[open code in online editor]".toList ++ '(' :: (editor ++ (payload code ++ [')'])) := by
  have hlead : "[".toList ++ label ++ "](".toList =
      "[open code in online editor]".toList ++ ['('] := by
    decide
  rw [markdown, hlead, address]
  simp

/-- What stands behind a character stands behind its first occurrence. -/
theorem isSuffix_behind {lead behind front rest : Text} {c : Char} (hlead : c ∉ lead)
    (h : lead ++ c :: behind = front ++ c :: rest) : rest <:+ behind := by
  rcases List.append_eq_append_iff.mp h with ⟨between, -, hrest⟩ | ⟨between, hfront, hrest⟩
  · cases between with
    | nil =>
      cases hrest
      exact List.suffix_rfl
    | cons b between =>
      obtain ⟨-, rfl⟩ := List.cons_eq_cons.mp hrest
      exact (List.suffix_cons c rest).trans (List.suffix_append between _)
  · cases between with
    | nil =>
      cases hrest
      exact List.suffix_rfl
    | cons b between =>
      obtain ⟨rfl, -⟩ := List.cons_eq_cons.mp hrest
      rw [hfront] at hlead
      exact absurd (List.mem_append_right front List.mem_cons_self) hlead

/-- **A link fits into an address and into a page.** The usual writer has letters for all its
numbers, and they are the letters behind the address: some, and all of them letters, digits, plus or
minus. So the line of the page has one closing bracket of each kind, the round one last, and no
blank behind the opening one. -/
theorem markdown_fits (code : Text) :
    Writer.letters? (Units.ofText code) = some (payload code) ∧
    (∀ n ∈ Writer.numbers (Units.ofText code), n < 64) ∧
    address editor code = editor ++ payload code ∧
    payload code ≠ [] ∧
    (∀ c ∈ payload code, c.isAlphanum ∨ c = '+' ∨ c = '-') ∧
    '$' ∉ payload code ∧
    (markdown editor code).count ']' = 1 ∧
    (markdown editor code).count ')' = 1 ∧
    (markdown editor code).getLast? = some ')' ∧
    ∀ front rest, markdown editor code = front ++ '(' :: rest → ∀ c ∈ rest, isBlank c = false := by
  have hsquare : (payload code).count ']' = 0 :=
    List.count_eq_zero_of_not_mem fun h => (mem_payload h).2.2.1 rfl
  have hround : (payload code).count ')' = 0 :=
    List.count_eq_zero_of_not_mem fun h => (mem_payload h).2.2.2.1 rfl
  have hbehind : ∀ c ∈ editor ++ (payload code ++ [')']), isBlank c = false := by
    have heditor : editor.any isBlank = false := by decide +kernel
    intro c hc
    simp only [List.mem_append, List.mem_singleton] at hc
    rcases hc with hc | hc | rfl
    · exact Bool.eq_false_iff.mpr (List.any_eq_false.mp heditor c hc)
    · exact (mem_payload hc).2.2.2.2
    · decide
  have hlead : '(' ∉ "[open code in online editor]".toList := by decide
  have hlast : (markdown editor code).getLast? = some ')' := List.getLast?_concat
  rw [markdown_eq] at hlast ⊢
  refine ⟨Writer.letters?_eq_payload code, ?_, rfl, payload_ne_nil code,
    fun c hc => (mem_payload hc).1, fun h => (mem_payload h).2.1 rfl, ?_, ?_, hlast, ?_⟩
  · rw [Writer.numbers_eq]
    exact (Packer.sound_ofBits _).close_lt
  · simp only [List.count_append, List.count_cons, hsquare]
    decide
  · simp only [List.count_append, List.count_cons, hround]
    decide
  · intro front rest heq
    exact fun c hc => hbehind c ((isSuffix_behind hlead heq).subset hc)

end LessonPages.Link
