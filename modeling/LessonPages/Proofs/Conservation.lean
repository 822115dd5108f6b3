import Mathlib.Data.List.Perm.Basic
import LessonPages.Classifier
import LessonPages.Proofs.LineKind

/-!
# No line of a lesson is lost

Classification moves lines through two buffers that are emptied at different lines. Here the lines
of the blocks are compared with those of the lesson, blanks around lines and blank lines set aside.

* `Classifier.held` — what the two buffers still hold.
* `Classifier.step_conserves`, `Classifier.run_conserves` — what a step, or a run, gives out and
  still holds is what it held before together with what it took in.
* `Classifier.Settled` — at most one of the two buffers is filled, and the mode says which.
* `Classifier.run_conserves_order` — without one-line comments inside a block comment, order is kept,
  too.
* `contentLines_classify` — both statements for a whole lesson.
-/

namespace LessonPages

/-- What lines say when blanks around them and blank lines do not count. -/
def contentLines (lines : List Text) : List Text := (lines.map Text.strip).filter (· ≠ [])

/-- All lines of some blocks. -/
def blockLines (blocks : List Block) : List Text := blocks.flatMap Block.lines

/-! ## Content -/

@[simp] theorem contentLines_nil : contentLines [] = [] := rfl

@[simp] theorem contentLines_append (ls ms : List Text) :
    contentLines (ls ++ ms) = contentLines ls ++ contentLines ms := by
  simp [contentLines]

theorem contentLines_cons (line : Text) (ls : List Text) :
    contentLines (line :: ls) = contentLines [line] ++ contentLines ls :=
  contentLines_append [line] ls

@[simp] theorem contentLines_strip (line : Text) :
    contentLines [line.strip] = contentLines [line] := by
  simp [contentLines]

theorem contentLines_eq_nil {ls : List Text} (h : ls.any Text.hasContent = false) :
    contentLines ls = [] := by
  rw [contentLines, List.filter_eq_nil_iff]
  intro t ht
  obtain ⟨line, hline, rfl⟩ := List.mem_map.mp ht
  have hblank : line.hasContent = false := by
    rw [List.any_eq_false] at h
    exact Bool.eq_false_iff.mpr (h line hline)
  simp [Text.strip_eq_nil_iff.mpr hblank]

@[simp] theorem blockLines_nil : blockLines [] = [] := rfl

@[simp] theorem blockLines_append (bs cs : List Block) :
    blockLines (bs ++ cs) = blockLines bs ++ blockLines cs := by
  simp [blockLines]

@[simp] theorem blockLines_singleton (b : Block) : blockLines [b] = b.lines := by
  simp [blockLines]

namespace Classifier

/-- The lines still held, as far as they count. -/
def held (s : Classifier) : List Text := contentLines s.code ++ contentLines s.comment

/-- The lines that a lesson line contributes: a marker is dropped. -/
def taken (line : Text) : List Text := if isMarkerLine line then [] else contentLines [line]

theorem contentLines_pendingCode (s : Classifier) :
    contentLines (blockLines s.pendingCode) = contentLines s.code := by
  unfold pendingCode
  split
  · rw [blockLines_singleton]
  · rename_i h
    rw [contentLines_eq_nil (Bool.eq_false_iff.mpr h)]
    rfl

theorem taken_of_not_marker {line : Text} (h : LineKind.of line ≠ .marker) :
    taken line = contentLines [line] :=
  if_neg fun hmarker => h (LineKind.of_eq_marker_iff.mpr hmarker)

/-! ## One step -/

/-- What a step gives out and still holds is what it held together with the line it took, though
perhaps in another order: a one-line comment passes a comment that is still open. -/
theorem step_conserves (s : Classifier) (line : Text) :
    (contentLines (blockLines (s.step line).2) ++ (s.step line).1.held).Perm
      (s.held ++ taken line) := by
  unfold step
  split
  · rename_i hkind
    have hmarker := LineKind.of_eq_marker_iff.mp hkind
    simp [held, taken, hmarker]
  · rename_i hkind
    rw [taken_of_not_marker (by simp [hkind])]
    simp only [flush, held, blockLines_append, blockLines_singleton, contentLines_append,
      contentLines_pendingCode, contentLines_nil, List.nil_append, List.append_assoc]
    exact (List.perm_append_comm).append_left _
  · rename_i hkind
    rw [taken_of_not_marker (by simp [hkind])]
    simp [flush, held, contentLines_pendingCode]
  · rename_i hkind
    rw [taken_of_not_marker (by simp [hkind])]
    split
    · simp only [held, blockLines_nil, contentLines_nil, contentLines_append, List.nil_append,
        List.append_assoc]
      exact (List.perm_append_comm).append_left _
    · simp only
      split
      · simp only [held, blockLines_singleton, contentLines_append, contentLines_strip,
          contentLines_nil, List.append_nil, List.append_assoc]
        have hswap : (contentLines s.comment ++ (contentLines [line] ++ contentLines s.code)).Perm
            (contentLines s.code ++ contentLines s.comment ++ contentLines [line]) := by
          rw [← List.append_assoc, List.append_assoc (contentLines s.code)]
          exact List.perm_append_comm
        simpa only [List.append_assoc] using hswap
      · simp [held]

/-- In code no comment is held, and inside a block comment no code is. -/
structure Settled (s : Classifier) : Prop where
  comment_nil : s.mode = .code → s.comment = []
  code_nil : s.mode = .blockComment → s.code = []

theorem settled_start : start.Settled := ⟨fun _ => rfl, fun h => (by cases h)⟩

theorem Settled.step {s : Classifier} (h : s.Settled) (line : Text) : (s.step line).1.Settled := by
  unfold Classifier.step
  split
  · exact ⟨h.comment_nil, h.code_nil⟩
  · exact ⟨h.comment_nil, fun _ => rfl⟩
  · exact ⟨fun hmode => (by cases hmode), fun _ => rfl⟩
  · split
    · rename_i hmode
      exact ⟨h.comment_nil, fun hcomment => absurd (hmode.symm.trans hcomment) (by decide)⟩
    · rename_i hmode
      simp only
      split
      · exact ⟨fun _ => rfl, fun hcomment => (by cases hcomment)⟩
      · exact ⟨fun hcode => absurd (hmode.symm.trans hcode) (by decide), h.code_nil⟩

/-- A settled step keeps the order, unless the line is a one-line comment inside a block comment. -/
theorem Settled.step_conserves_order {s : Classifier} (h : s.Settled) {line : Text}
    (hline : IsOneLineComment line → s.mode ≠ .blockComment) :
    contentLines (blockLines (s.step line).2) ++ (s.step line).1.held = s.held ++ taken line := by
  unfold Classifier.step
  split
  · rename_i hkind
    have hmarker := LineKind.of_eq_marker_iff.mp hkind
    simp [held, taken, hmarker]
  · rename_i hkind
    have hcode : s.mode = .code := by
      cases hmode : s.mode with
      | code => rfl
      | blockComment => exact absurd hmode (hline (LineKind.of_eq_lineComment_iff.mp hkind))
    rw [taken_of_not_marker (by simp [hkind])]
    simp [flush, held, contentLines_pendingCode, h.comment_nil hcode]
  · rename_i hkind
    rw [taken_of_not_marker (by simp [hkind])]
    simp [flush, held, contentLines_pendingCode]
  · rename_i hkind
    rw [taken_of_not_marker (by simp [hkind])]
    split
    · rename_i hmode
      simp [held, h.comment_nil hmode]
    · rename_i hmode
      simp only
      split
      · simp [held, h.code_nil hmode]
      · simp [held]

/-! ## A whole run -/

/-- The lines that lesson lines contribute together. -/
theorem contentLines_filter_cons (line : Text) (lines : List Text) :
    contentLines ((line :: lines).filter fun l => !isMarkerLine l) =
      taken line ++ contentLines (lines.filter fun l => !isMarkerLine l) := by
  unfold taken
  cases hmarker : isMarkerLine line
  · rw [List.filter_cons_of_pos (by simp [hmarker]), contentLines_cons, if_neg Bool.false_ne_true]
  · rw [List.filter_cons_of_neg (by simp [hmarker]), if_pos rfl, List.nil_append]

theorem run_conserves (s : Classifier) (lines : List Text) :
    (contentLines (blockLines (s.run lines).2) ++ (s.run lines).1.held).Perm
      (s.held ++ contentLines (lines.filter fun l => !isMarkerLine l)) := by
  induction lines generalizing s with
  | nil => simp
  | cons line rest ih =>
    have hstep := s.step_conserves line
    have hrest := ih (s.step line).1
    rw [contentLines_filter_cons, ← List.append_assoc, run]
    simp only [blockLines_append, contentLines_append]
    rw [List.append_assoc]
    refine (hrest.append_left _).trans ?_
    rw [← List.append_assoc]
    exact hstep.append_right _

/-- Whether no one-line comment is met inside a block comment when lines are taken from some state
on. -/
def NoCommentInComment (s : Classifier) (lines : List Text) : Prop :=
  ∀ before line after, lines = before ++ line :: after → IsOneLineComment line →
    (s.run before).1.mode ≠ .blockComment

theorem NoCommentInComment.tail {s : Classifier} {line : Text} {rest : List Text}
    (h : s.NoCommentInComment (line :: rest)) : (s.step line).1.NoCommentInComment rest := by
  intro before next after hsplit hnext
  exact h (line :: before) next after (by rw [hsplit, List.cons_append]) hnext

theorem Settled.run_conserves_order {s : Classifier} (h : s.Settled) {lines : List Text}
    (hlines : s.NoCommentInComment lines) :
    contentLines (blockLines (s.run lines).2) ++ (s.run lines).1.held =
      s.held ++ contentLines (lines.filter fun l => !isMarkerLine l) := by
  induction lines generalizing s with
  | nil => simp
  | cons line rest ih =>
    have hstep := h.step_conserves_order (hlines [] line rest rfl)
    have hrest := ih (h.step line) hlines.tail
    rw [contentLines_filter_cons, ← List.append_assoc, ← hstep, run]
    simp only [blockLines_append, contentLines_append]
    rw [List.append_assoc, hrest, List.append_assoc]

theorem contentLines_finish (s : Classifier) : contentLines (blockLines s.finish) = s.held := by
  unfold finish
  rw [blockLines_append, contentLines_append, contentLines_pendingCode, held]
  split
  · rename_i h
    rw [List.isEmpty_iff.mp h]
    rfl
  · rw [blockLines_singleton]

end Classifier

/-! ## A whole lesson -/

/-- **No line is lost, invented or doubled**: but for markers, blanks around lines and blank lines,
the blocks of a lesson have its lines, each as often as the lesson has it; and they have them in the
order of the lesson if no one-line comment is met inside a block comment. -/
theorem contentLines_classify (lesson : Text) :
    (contentLines (blockLines (classify lesson))).Perm
        (contentLines (lesson.lines.filter fun l => !isMarkerLine l)) ∧
      (Classifier.start.NoCommentInComment lesson.lines →
        contentLines (blockLines (classify lesson)) =
          contentLines (lesson.lines.filter fun l => !isMarkerLine l)) := by
  have hall : contentLines (blockLines (classify lesson)) =
      contentLines (blockLines (Classifier.start.run lesson.lines).2) ++
        (Classifier.start.run lesson.lines).1.held := by
    rw [classify, classifyLines, blockLines_append, contentLines_append,
      Classifier.contentLines_finish]
  rw [hall]
  exact ⟨Classifier.run_conserves Classifier.start lesson.lines,
    fun hlines => Classifier.settled_start.run_conserves_order hlines⟩

end LessonPages
