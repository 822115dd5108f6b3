import Mathlib.Data.List.Basic
import LessonPages.Classifier
import LessonPages.Proofs.LineKind

/-!
# Code blocks as pieces of the lesson

The classifier builds code blocks as it goes, with a request for a link that outlives comments and
is dropped at every cut. This file gives the same blocks at once: the lesson is cut at its comment
lines, and each piece gives at most one block of code.

* `Classifier.met` — the lines of a lesson, each with the mode in which it is met.
* `Piece.block?` — the block of one piece.
* `Classifier.code_blocks_run` — from any state on, the code blocks are those of the pieces, the
  first piece being joined to what the state holds.
* `code_blocks_classify` — the same for a whole lesson, and at most one linked block for a marker.
-/

namespace LessonPages

/-- Lines of a lesson, each with the mode in which it is met. -/
abbrev Piece := List (Mode × Text)

namespace Piece

/-- The lines that a piece keeps: no markers, and nothing of a block comment. -/
def kept (piece : Piece) : List Text :=
  (piece.filter fun p => p.1 = .code && !isMarkerLine p.2).map (·.2)

/-- Whether a link is asked for anywhere in a piece. -/
def asksForLink (piece : Piece) : Bool := piece.any fun p => isMarkerLine p.2

/-- The block of code that some lines are, unless they are all blank. -/
def codeBlock? (linked : Bool) (lines : List Text) : Option Block :=
  if lines.any fun line => line.strip ≠ [] then
    some ⟨if linked then .linkedCode else .code, lines⟩
  else none

/-- The block of code that a piece gives, if any. -/
def block? (piece : Piece) : Option Block := codeBlock? piece.asksForLink piece.kept

/-- The blocks of pieces of which the first one goes on from some code. -/
def blocksBehind (linked : Bool) (code : List Text) : List Piece → List Block
  | [] => []
  | piece :: rest =>
    (codeBlock? (linked || piece.asksForLink) (code ++ piece.kept)).toList ++ rest.filterMap block?

theorem blocksBehind_cons (linked : Bool) (code : List Text) (piece : Piece) (rest : List Piece) :
    blocksBehind linked code (piece :: rest) =
      (codeBlock? (linked || piece.asksForLink) (code ++ piece.kept)).toList ++
        rest.filterMap block? := rfl

/-- An empty piece adds nothing to the code it goes on from. -/
theorem blocksBehind_nil_cons (linked : Bool) (code : List Text) (rest : List Piece) :
    blocksBehind linked code ([] :: rest) =
      (codeBlock? linked code).toList ++ rest.filterMap block? := by
  simp [blocksBehind_cons, kept, asksForLink]

theorem blocksBehind_start (pieces : List Piece) :
    blocksBehind false [] pieces = pieces.filterMap block? := by
  cases pieces with
  | nil => rfl
  | cons piece rest =>
    rw [blocksBehind, Bool.false_or, List.nil_append, List.filterMap_cons]
    change (block? piece).toList ++ _ = _
    cases block? piece <;> rfl

theorem kept_cons_of_marker {mode : Mode} {line : Text} (h : isMarkerLine line = true)
    (piece : Piece) : kept ((mode, line) :: piece) = kept piece := by
  simp [kept, h]

theorem kept_cons_of_comment (line : Text) (piece : Piece) :
    kept ((.blockComment, line) :: piece) = kept piece := by
  simp [kept]

theorem kept_cons_of_code {line : Text} (h : isMarkerLine line = false) (piece : Piece) :
    kept ((.code, line) :: piece) = line :: kept piece := by
  simp [kept, h]

theorem asksForLink_cons (mode : Mode) (line : Text) (piece : Piece) :
    asksForLink ((mode, line) :: piece) = (isMarkerLine line || piece.asksForLink) := rfl

end Piece

namespace Classifier

open Piece

/-- The lines taken from a state on, each with the mode in which it is met. -/
def met (s : Classifier) : List Text → Piece
  | [] => []
  | line :: rest => (s.mode, line) :: (s.step line).1.met rest

/-- The pieces of the lines taken from a state on: cut lines belong to no piece. -/
def pieces (s : Classifier) (lines : List Text) : List Piece :=
  (s.met lines).splitOnP fun p => isCutLine p.2

/-! ## Pieces line by line -/

theorem pieces_nil (s : Classifier) : s.pieces [] = [[]] := rfl

theorem pieces_cons_of_cut (s : Classifier) {line : Text} (h : isCutLine line = true)
    (rest : List Text) : s.pieces (line :: rest) = [] :: (s.step line).1.pieces rest := by
  rw [pieces, met, List.splitOnP_cons_eq_if_modifyHead, if_pos h]
  rfl

theorem pieces_cons_of_not_cut (s : Classifier) {line : Text} (h : isCutLine line = false)
    (rest : List Text) : ∃ piece later, (s.step line).1.pieces rest = piece :: later ∧
      s.pieces (line :: rest) = ((s.mode, line) :: piece) :: later := by
  obtain ⟨piece, later, hsplit⟩ := List.exists_cons_of_ne_nil
    (List.splitOnP_ne_nil (fun p : Mode × Text => isCutLine p.2) ((s.step line).1.met rest))
  refine ⟨piece, later, hsplit, ?_⟩
  have hno : ¬ (isCutLine line = true) := by rw [h]; exact Bool.false_ne_true
  rw [pieces, met, List.splitOnP_cons_eq_if_modifyHead, if_neg hno, hsplit]
  rfl

/-- The pending code is the block of the lines held. -/
theorem pendingCode_eq (s : Classifier) : s.pendingCode = (codeBlock? s.linked s.code).toList := by
  have hany : (s.code.any fun line => line.strip ≠ []) = s.code.any Text.hasContent := by
    congr 1
    funext line
    rw [Bool.eq_iff_iff, decide_eq_true_iff]
    exact Text.strip_ne_nil_iff
  rw [pendingCode, codeBlock?, hany]
  split <;> rfl

theorem isCode_pendingCode (s : Classifier) : s.pendingCode.filter Block.isCode = s.pendingCode := by
  unfold pendingCode
  split
  · cases s.linked <;> rfl
  · rfl

/-! ## The code blocks of a run -/

/-- What a run and the end of the lesson give out. -/
def blocksOf (s : Classifier) (lines : List Text) : List Block :=
  (s.run lines).2 ++ (s.run lines).1.finish

theorem blocksOf_cons (s : Classifier) (line : Text) (rest : List Text) :
    s.blocksOf (line :: rest) = (s.step line).2 ++ (s.step line).1.blocksOf rest := by
  simp only [blocksOf, run, List.append_assoc]

/-- From any state on, the code blocks are those of the pieces, the first piece going on from the
code that the state holds, with the request for a link that it holds. -/
theorem code_blocks_run (s : Classifier) (lines : List Text) :
    (s.blocksOf lines).filter Block.isCode = blocksBehind s.linked s.code (s.pieces lines) := by
  induction lines generalizing s with
  | nil =>
    rw [blocksOf, run_nil, List.nil_append, finish, List.filter_append, isCode_pendingCode,
      pieces_nil, blocksBehind_nil_cons, pendingCode_eq]
    split <;> rfl
  | cons line rest ih =>
    rw [blocksOf_cons, List.filter_append, ih]
    have hcuts := LineKind.cuts_of line
    cases hkind : LineKind.of line with
    | marker =>
      have hmarker := LineKind.of_eq_marker_iff.mp hkind
      rw [hkind] at hcuts
      obtain ⟨piece, later, hnext, hpieces⟩ := s.pieces_cons_of_not_cut hcuts.symm rest
      rw [hnext, hpieces]
      simp only [step, hkind, blocksBehind_cons, kept_cons_of_marker hmarker, asksForLink_cons, hmarker,
        Bool.true_or, Bool.or_true, List.filter_nil, List.nil_append]
    | lineComment =>
      rw [hkind] at hcuts
      rw [s.pieces_cons_of_cut hcuts.symm]
      have hblock : ([⟨.comment, [line]⟩] : List Block).filter Block.isCode = [] := rfl
      simp only [step, hkind, flush, List.filter_append, isCode_pendingCode, hblock,
        List.append_nil]
      rw [blocksBehind_start, blocksBehind_nil_cons, pendingCode_eq]
    | commentStart =>
      rw [hkind] at hcuts
      rw [s.pieces_cons_of_cut hcuts.symm]
      simp only [step, hkind, flush, isCode_pendingCode]
      rw [blocksBehind_start, blocksBehind_nil_cons, pendingCode_eq]
    | plain =>
      have hmarker : isMarkerLine line = false := by
        rw [Bool.eq_false_iff]
        intro h
        rw [LineKind.of_eq_marker_iff.mpr h] at hkind
        cases hkind
      rw [hkind] at hcuts
      obtain ⟨piece, later, hnext, hpieces⟩ := s.pieces_cons_of_not_cut hcuts.symm rest
      rw [hnext, hpieces]
      cases hmode : s.mode with
      | code =>
        simp only [step, hkind, hmode, blocksBehind_cons, kept_cons_of_code hmarker, asksForLink_cons,
          hmarker, Bool.false_or, List.filter_nil, List.nil_append, List.append_assoc,
          List.singleton_append]
      | blockComment =>
        have hgiven : (s.step line).2.filter Block.isCode = [] := by
          simp only [step, hkind, hmode]
          split <;> rfl
        have hheld : (s.step line).1.linked = s.linked ∧ (s.step line).1.code = s.code := by
          simp only [step, hkind, hmode]
          split <;> exact ⟨rfl, rfl⟩
        rw [hgiven, hheld.1, hheld.2]
        simp only [blocksBehind_cons, kept_cons_of_comment, asksForLink_cons, hmarker, Bool.false_or,
          List.nil_append]

/-! ## Links and markers -/

/-- How many linked blocks there are. -/
def linkedCount (blocks : List Block) : Nat := blocks.countP (·.kind = .linkedCode)

theorem linkedCount_pendingCode_le (s : Classifier) :
    linkedCount s.pendingCode ≤ s.linked.toNat := by
  unfold pendingCode
  split
  · cases s.linked <;> simp [linkedCount]
  · exact Nat.zero_le _

/-- A request for a link is made by a marker and spent by one block at most. -/
theorem linkedCount_step_le (s : Classifier) (line : Text) :
    linkedCount (s.step line).2 + (s.step line).1.linked.toNat ≤
      s.linked.toNat + (isMarkerLine line).toNat := by
  have hpending := s.linkedCount_pendingCode_le
  unfold step
  split
  · rename_i hkind
    rw [LineKind.of_eq_marker_iff.mp hkind]
    simp [linkedCount]
  · simp only [flush, linkedCount, List.countP_append, Bool.toNat_false] at hpending ⊢
    simpa using Nat.le_add_right_of_le hpending
  · simp only [flush, linkedCount, Bool.toNat_false] at hpending ⊢
    omega
  · split
    · simp [linkedCount]
    · simp only
      split <;> simp [linkedCount]

theorem linkedCount_blocksOf_le (s : Classifier) (lines : List Text) :
    linkedCount (s.blocksOf lines) ≤ s.linked.toNat + lines.countP isMarkerLine := by
  induction lines generalizing s with
  | nil =>
    have hpending := s.linkedCount_pendingCode_le
    rw [blocksOf, run_nil, List.nil_append, finish]
    split
    · rw [List.append_nil]
      exact hpending
    · simpa [linkedCount] using hpending
  | cons line rest ih =>
    have hstep := s.linkedCount_step_le line
    have hrest := ih (s.step line).1
    have hcount : (line :: rest).countP isMarkerLine =
        rest.countP isMarkerLine + (isMarkerLine line).toNat := by
      rw [List.countP_cons]
      cases isMarkerLine line <;> rfl
    rw [blocksOf_cons, hcount]
    simp only [linkedCount, List.countP_append] at hstep hrest ⊢
    omega

end Classifier

/-! ## A whole lesson -/

/-- **Code blocks are pieces.**  Cut a lesson at the lines that end code, and keep of each piece the
lines that are met in code and are no markers: the pieces that keep a line with content are the code
blocks, in order and verbatim, linked exactly where a marker stands in the piece. So there are no
more linked blocks than markers. -/
theorem code_blocks_classify (lesson : Text) :
    (classify lesson).filter Block.isCode =
        (Classifier.start.pieces lesson.lines).filterMap Piece.block? ∧
      (classify lesson).countP (·.kind = .linkedCode) ≤ lesson.lines.countP isMarkerLine := by
  constructor
  · have hrun := Classifier.code_blocks_run Classifier.start lesson.lines
    rw [Classifier.start, Piece.blocksBehind_start] at hrun
    exact hrun
  · have hcount := Classifier.linkedCount_blocksOf_le Classifier.start lesson.lines
    rw [Classifier.start, Bool.toNat_false, Nat.zero_add] at hcount
    exact hcount

end LessonPages
