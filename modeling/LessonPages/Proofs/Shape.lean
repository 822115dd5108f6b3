import Mathlib.Data.List.Chain
import LessonPages.Proofs.Conservation
import LessonPages.Proofs.Segments

/-!
# The shape of the blocks of a lesson

Which blocks a lesson can have, and in which order: two pieces of code never stand side by side, and
a comment that is never closed comes last. All of it is read off what the classifier holds between two
lines.

* `IsUnclosed` — the lines of a block comment that no line has closed yet.
* `Classifier.Shaped` — what the two buffers hold; `Classifier.Shaped.step` — a step keeps it so.
* `Block.Complete` — the blocks that a step can give out: all but the comment that is still open at
  the end of the lesson.
* `Classifier.Settled.blocksOf_follows` — code stands beside comments only.
* `classify_shape` — the blocks of a whole lesson.
-/

namespace LessonPages

/-- The lines of a block comment that no line has closed yet: all of them are stripped, the first one
opens the comment, and none has a closer at its end. -/
structure IsUnclosed (lines : List Text) : Prop where
  opened : ∃ first rest, lines = first :: rest ∧ commentOpener <+: first
  stripped : ∀ line ∈ lines, line.strip = line
  unclosed : ∀ line ∈ lines, ¬ commentCloser <:+ line

namespace IsUnclosed

variable {lines : List Text} {line : Text}

theorem singleton (hopener : commentOpener <+: line.strip) (hcloser : ¬ commentCloser <:+ line.strip) :
    IsUnclosed [line.strip] :=
  ⟨⟨_, [], rfl, hopener⟩, by simp, by simpa using hcloser⟩

theorem snoc (h : IsUnclosed lines) (hcloser : ¬ commentCloser <:+ line.strip) :
    IsUnclosed (lines ++ [line.strip]) := by
  obtain ⟨⟨first, rest, rfl, hopener⟩, hstripped, hunclosed⟩ := h
  refine ⟨⟨first, rest ++ [line.strip], rfl, hopener⟩, ?_, ?_⟩
  · intro l hl
    rcases List.mem_append.mp hl with hl | hl
    · exact hstripped l hl
    · rw [List.mem_singleton.mp hl, Text.strip_strip]
  · intro l hl
    rcases List.mem_append.mp hl with hl | hl
    · exact hunclosed l hl
    · rwa [List.mem_singleton.mp hl]

theorem ne_nil (h : IsUnclosed lines) : lines ≠ [] := by
  obtain ⟨first, rest, rfl, -⟩ := h.opened
  exact List.cons_ne_nil first rest

end IsUnclosed

/-! ## Blocks that a step gives out -/

namespace Block

variable {b : Block} {lines more : List Text}

/-- A piece of code: one of its lines has content, and none of them starts a comment. -/
structure IsCodePiece (b : Block) : Prop where
  isCode : b.isCode = true
  content : ∃ line ∈ b.lines, line.strip ≠ []
  plain : ∀ line ∈ b.lines, ¬ lineCommentMark <+: line ∧ ¬ commentOpener <+: line.strip

/-- A comment of one line, which stands in the block as it was among the given lines. -/
def IsLineComment (lines : List Text) (b : Block) : Prop :=
  b.kind = .comment ∧ ∃ line ∈ lines, b.lines = [line] ∧ IsOneLineComment line

/-- A block comment that its last line closes, and no line before it. -/
def IsClosedComment (b : Block) : Prop :=
  b.kind = .comment ∧ ∃ front last, b.lines = front ++ [last] ∧ IsUnclosed front ∧
    Text.strip last = last ∧ commentCloser <:+ last

/-- A block comment that is never closed. -/
def IsOpenComment (b : Block) : Prop := b.kind = .comment ∧ IsUnclosed b.lines

/-- A block that is over when it is given out. -/
def Complete (lines : List Text) (b : Block) : Prop :=
  b.IsCodePiece ∨ b.IsLineComment lines ∨ b.IsClosedComment

theorem Complete.mono (h : b.Complete lines) (hsub : lines ⊆ more) : b.Complete more := by
  refine h.imp id (Or.imp ?_ id)
  rintro ⟨hkind, line, hline, hrest⟩
  exact ⟨hkind, line, hsub hline, hrest⟩

/-- A one-line comment, once it is stripped, ends with a closer, unless two slashes start it. -/
theorem not_isUnclosed_of_isOneLineComment {line : Text} (h : IsOneLineComment line) :
    ¬ IsUnclosed [line] := by
  rintro ⟨⟨first, rest, hline, hopener⟩, hstripped, hunclosed⟩
  have hstrip : line.strip = line := hstripped line (List.mem_singleton_self line)
  obtain ⟨rfl, -⟩ := List.cons.inj hline
  rcases h with ⟨hmark, -⟩ | ⟨-, hcloser⟩
  · exact LineKind.not_opener_of_mark hmark (hstrip.symm ▸ hopener)
  · exact hunclosed line (List.mem_singleton_self line) (hstrip ▸ hcloser)

/-- A block that is over is no comment that is still open. -/
theorem Complete.not_isOpenComment (h : b.Complete lines) : ¬ b.IsOpenComment := by
  rintro ⟨hkind, hopen⟩
  rcases h with hcode | ⟨-, line, -, hline, hone⟩ | ⟨-, front, last, hlast, -, -, hcloser⟩
  · have hcode := hcode.isCode
    rw [isCode, hkind] at hcode
    cases hcode
  · exact not_isUnclosed_of_isOneLineComment hone (hline ▸ hopen)
  · exact hopen.unclosed last (by rw [hlast]; simp) hcloser

end Block

/-! ## What is held -/

namespace Classifier

variable {s : Classifier} {line : Text} {lines : List Text}

/-- Between two lines, an open comment is held exactly inside of a block comment, and then no code is;
and no line of the code that is held starts a comment. -/
structure Shaped (s : Classifier) : Prop extends Settled s where
  comment : s.mode = .blockComment → IsUnclosed s.comment
  code : ∀ line ∈ s.code, ¬ lineCommentMark <+: line ∧ ¬ commentOpener <+: line.strip

theorem shaped_start : start.Shaped :=
  ⟨settled_start, fun h => (by cases h), fun _ h => (by cases h)⟩

/-- An opener starts a comment, or is one more line of the comment that it stands in. -/
theorem Shaped.isUnclosed_of_start (h : s.Shaped) (hline : LineKind.of line = .commentStart) :
    IsUnclosed (s.comment ++ [line.strip]) := by
  obtain ⟨hopener, hcloser⟩ := LineKind.of_eq_commentStart hline
  cases hmode : s.mode with
  | code =>
    rw [h.comment_nil hmode]
    exact .singleton hopener hcloser
  | blockComment => exact (h.comment hmode).snoc hcloser

theorem Shaped.step (h : s.Shaped) (line : Text) : (s.step line).1.Shaped := by
  refine ⟨h.toSettled.step line, ?_, ?_⟩
  · unfold Classifier.step
    split
    · exact h.comment
    · exact h.comment
    · rename_i hkind
      exact fun _ => h.isUnclosed_of_start hkind
    · split
      · exact h.comment
      · rename_i hmode
        simp only
        split
        · exact fun hcomment => (by cases hcomment)
        · rename_i hcloser
          rw [List.isSuffixOf_iff_suffix] at hcloser
          exact fun _ => (h.comment hmode).snoc hcloser
  · unfold Classifier.step
    split
    · exact h.code
    · exact fun _ hl => (by cases hl)
    · exact fun _ hl => (by cases hl)
    · rename_i hkind
      split
      · intro l hl
        rcases List.mem_append.mp hl with hl | hl
        · exact h.code l hl
        · rw [List.mem_singleton.mp hl]
          exact LineKind.of_eq_plain hkind
      · simp only
        split <;> exact h.code

theorem Shaped.pendingCode (h : s.Shaped) : ∀ b ∈ s.pendingCode, b.IsCodePiece := by
  intro b hb
  unfold Classifier.pendingCode at hb
  split at hb
  · rename_i hcontent
    obtain rfl := List.mem_singleton.mp hb
    obtain ⟨l, hl, hcontent⟩ := List.any_eq_true.mp hcontent
    refine ⟨?_, ⟨l, hl, Text.strip_ne_nil_iff.mpr hcontent⟩, h.code⟩
    unfold Block.isCode
    cases s.linked <;> rfl
  · cases hb

/-- The blocks that a step gives out are over. -/
theorem Shaped.step_complete (h : s.Shaped) (line : Text) :
    ∀ b ∈ (s.step line).2, b.Complete [line] := by
  intro b hb
  unfold Classifier.step at hb
  split at hb
  · cases hb
  · rename_i hkind
    rcases List.mem_append.mp hb with hb | hb
    · exact .inl (h.pendingCode b hb)
    · obtain rfl := List.mem_singleton.mp hb
      exact .inr (.inl ⟨rfl, line, List.mem_singleton_self line, rfl,
        LineKind.of_eq_lineComment_iff.mp hkind⟩)
  · exact .inl (h.pendingCode b hb)
  · split at hb
    · cases hb
    · rename_i hmode
      simp only at hb
      split at hb
      · rename_i hcloser
        obtain rfl := List.mem_singleton.mp hb
        rw [List.isSuffixOf_iff_suffix] at hcloser
        exact .inr (.inr ⟨rfl, s.comment, line.strip, rfl, h.comment hmode, Text.strip_strip line,
          hcloser⟩)
      · cases hb

theorem Shaped.run (h : s.Shaped) (lines : List Text) :
    (s.run lines).1.Shaped ∧ ∀ b ∈ (s.run lines).2, b.Complete lines := by
  induction lines generalizing s with
  | nil => exact ⟨h, fun _ hb => (by cases hb)⟩
  | cons line rest ih =>
    obtain ⟨hlast, hrest⟩ := ih (h.step line)
    refine ⟨hlast, ?_⟩
    intro b hb
    rcases List.mem_append.mp hb with hb | hb
    · exact (h.step_complete line b hb).mono (by simp)
    · exact (hrest b hb).mono (List.subset_cons_self line rest)

/-! ## Code beside comments -/

/-- Two blocks of which at most one is code. -/
def Alternate (b c : Block) : Prop := ¬ (b.isCode = true ∧ c.isCode = true)

/-- Blocks that can come next in a mode: no two blocks of code stand side by side, and inside of a block
comment the next block is no code. -/
structure Follows (mode : Mode) (blocks : List Block) : Prop where
  chain : blocks.IsChain Alternate
  head : mode = .blockComment → ∀ b ∈ blocks.head?, b.isCode = false

/-- A comment may stand before any blocks that alternate. -/
theorem isChain_comment_cons (comment : List Text) {blocks : List Block}
    (h : blocks.IsChain Alternate) :
    ((⟨.comment, comment⟩ : Block) :: blocks).IsChain Alternate :=
  List.isChain_cons.mpr ⟨fun _ _ hboth => (by cases hboth.1), h⟩

/-- Pending code may stand before blocks that do not start with code; inside of a block comment there is
none. -/
theorem Settled.follows_pendingCode (h : s.Settled) {blocks : List Block}
    (hchain : blocks.IsChain Alternate) (hhead : ∀ b ∈ blocks.head?, b.isCode = false) :
    Follows s.mode (s.pendingCode ++ blocks) := by
  unfold Classifier.pendingCode
  split
  · rename_i hcontent
    refine ⟨List.isChain_cons.mpr ⟨?_, hchain⟩, ?_⟩
    · rintro b hb ⟨-, hcode⟩
      rw [hhead b hb] at hcode
      cases hcode
    · intro hmode
      rw [h.code_nil hmode] at hcontent
      cases hcontent
  · exact ⟨hchain, fun _ => hhead⟩

/-- What may follow a step may follow its blocks. -/
theorem Settled.step_follows (h : s.Settled) (line : Text) {blocks : List Block}
    (hblocks : Follows (s.step line).1.mode blocks) : Follows s.mode ((s.step line).2 ++ blocks) := by
  unfold Classifier.step at hblocks ⊢
  split at hblocks
  · exact hblocks
  · rw [List.append_assoc]
    refine h.follows_pendingCode (isChain_comment_cons [line] hblocks.chain) ?_
    rintro b ⟨⟩
    rfl
  · exact h.follows_pendingCode hblocks.chain (hblocks.head rfl)
  · split at hblocks
    · exact hblocks
    · by_cases hcloser : commentCloser.isSuffixOf line.strip = true
      · simp only [if_pos hcloser] at hblocks ⊢
        refine ⟨isChain_comment_cons _ hblocks.chain, ?_⟩
        rintro - b ⟨⟩
        rfl
      · simp only [if_neg hcloser, List.nil_append] at hblocks ⊢
        exact hblocks

theorem Settled.finish_follows (h : s.Settled) : Follows s.mode s.finish := by
  unfold Classifier.finish
  apply h.follows_pendingCode
  · split
    · exact .nil
    · exact isChain_comment_cons s.comment .nil
  · intro b hb
    split at hb
    · cases hb
    · cases hb
      rfl

/-- **From a settled state on, code stands beside comments only.** -/
theorem Settled.blocksOf_follows (h : s.Settled) (lines : List Text) :
    Follows s.mode (s.blocksOf lines) := by
  induction lines generalizing s with
  | nil => exact h.finish_follows
  | cons line rest ih =>
    rw [blocksOf_cons]
    exact h.step_follows line (ih (h.step line))

end Classifier

/-! ## A whole lesson -/

/-- The blocks of a lesson are over when they are given out, but for the comment that is still open at
the end. -/
theorem exists_classify_eq (lesson : Text) :
    ∃ done last, classify lesson = done ++ last ∧ (∀ b ∈ done, b.Complete lesson.lines) ∧
      ((Classifier.start.run lesson.lines).1.mode = .code ∧ last = [] ∨
        (Classifier.start.run lesson.lines).1.mode = .blockComment ∧
          ∃ b : Block, last = [b] ∧ b.IsOpenComment) := by
  obtain ⟨hlast, hdone⟩ := Classifier.shaped_start.run lesson.lines
  refine ⟨(Classifier.start.run lesson.lines).2 ++ (Classifier.start.run lesson.lines).1.pendingCode,
    _, (List.append_assoc _ _ _).symm, ?_, ?_⟩
  · intro b hb
    rcases List.mem_append.mp hb with hb | hb
    · exact hdone b hb
    · exact .inl (hlast.pendingCode b hb)
  · cases hmode : (Classifier.start.run lesson.lines).1.mode with
    | code => exact .inl ⟨rfl, by rw [hlast.comment_nil hmode]; rfl⟩
    | blockComment =>
      have hopen := hlast.comment hmode
      refine .inr ⟨rfl, ⟨.comment, (Classifier.start.run lesson.lines).1.comment⟩, ?_, rfl, hopen⟩
      rw [if_neg (by simpa using hopen.ne_nil)]

/-- **The blocks of a lesson.** No two blocks of code stand side by side. Code has a line with content
and no line that starts a comment. A comment is one line as it stands in the lesson, or a block comment
that its last line closes, or one that is never closed; the last kind comes only at the very end, and
it is there exactly if the lesson ends inside of a block comment. -/
theorem classify_shape (lesson : Text) :
    (classify lesson).IsChain (fun b c => ¬ (b.isCode = true ∧ c.isCode = true)) ∧
      (∀ b ∈ classify lesson, b.isCode = true → (∃ line ∈ b.lines, line.strip ≠ []) ∧
        ∀ line ∈ b.lines, ¬ lineCommentMark <+: line ∧ ¬ commentOpener <+: line.strip) ∧
      (∀ b ∈ classify lesson, b.kind = .comment →
        b.IsLineComment lesson.lines ∨ b.IsClosedComment ∨ b.IsOpenComment) ∧
      (∀ front b back, classify lesson = front ++ b :: back → b.IsOpenComment → back = []) ∧
      ((∃ b ∈ classify lesson, b.IsOpenComment) ↔
        (Classifier.start.run lesson.lines).1.mode = .blockComment) := by
  obtain ⟨done, last, hall, hdone, hlast⟩ := exists_classify_eq lesson
  have hkinds : ∀ b ∈ classify lesson, b.Complete lesson.lines ∨ b.IsOpenComment := by
    intro b hb
    rw [hall] at hb
    rcases List.mem_append.mp hb with hb | hb
    · exact .inl (hdone b hb)
    · rcases hlast with ⟨-, rfl⟩ | ⟨-, o, rfl, hopen⟩
      · cases hb
      · exact .inr (List.mem_singleton.mp hb ▸ hopen)
  refine ⟨(Classifier.settled_start.blocksOf_follows lesson.lines).chain, ?_, ?_, ?_, ?_⟩
  · intro b hb hcode
    rcases hkinds b hb with (hpiece | ⟨hkind, -⟩ | ⟨hkind, -⟩) | ⟨hkind, -⟩
    · exact ⟨hpiece.content, hpiece.plain⟩
    all_goals
      rw [Block.isCode, hkind] at hcode
      cases hcode
  · intro b hb hkind
    rcases hkinds b hb with (hpiece | hline | hclosed) | hopen
    · have hcode := hpiece.isCode
      rw [Block.isCode, hkind] at hcode
      cases hcode
    · exact .inl hline
    · exact .inr (.inl hclosed)
    · exact .inr (.inr hopen)
  · intro front b back hsplit hopen
    by_contra hback
    -- with a block behind it, the open comment would be among the blocks that are over
    refine (hdone b ?_).not_isOpenComment hopen
    obtain ⟨back, x, rfl⟩ := (List.eq_nil_or_concat back).resolve_left hback
    rw [hall, List.concat_eq_append, ← List.cons_append, ← List.append_assoc] at hsplit
    rcases hlast with ⟨-, rfl⟩ | ⟨-, o, rfl, -⟩
    · rw [List.append_nil] at hsplit
      simp [hsplit]
    · rw [(List.append_inj' hsplit rfl).1]
      simp
  · constructor
    · rintro ⟨b, hb, hopen⟩
      rcases hlast with ⟨-, rfl⟩ | ⟨hmode, -⟩
      · rw [hall, List.append_nil] at hb
        exact ((hdone b hb).not_isOpenComment hopen).elim
      · exact hmode
    · intro hmode
      rcases hlast with ⟨hcode, -⟩ | ⟨-, b, rfl, hopen⟩
      · rw [hcode] at hmode
        cases hmode
      · exact ⟨b, by rw [hall]; simp, hopen⟩

end LessonPages
