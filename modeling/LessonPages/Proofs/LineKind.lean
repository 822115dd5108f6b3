import LessonPages.LineKind
import LessonPages.Proofs.Strip

/-!
# What the kind of a line says about its text

* `LineKind.of_eq_marker_iff`, `LineKind.of_eq_lineComment_iff` — the kinds in terms of how the line
  and the stripped line start and end.
* `LineKind.of_eq_commentStart`, `LineKind.of_eq_plain` — what a line that opens a comment and a plain
  line have and lack; `LineKind.of_eq_commentStart_iff`, `LineKind.of_eq_plain_iff` — only they do.
* `LineKind.cuts_of` — which lines end the code before them.
-/

namespace LessonPages

/-- Whether a line asks for a link. -/
def isMarkerLine (line : Text) : Bool := linkMarker.isPrefixOf line

/-- A comment that starts and ends on its line: the line starts with two slashes and is no marker,
or the stripped line has an opener at its start and a closer at its end. -/
def IsOneLineComment (line : Text) : Prop :=
  (lineCommentMark <+: line ∧ ¬ linkMarker <+: line) ∨
    (commentOpener <+: line.strip ∧ commentCloser <:+ line.strip)

/-- A line that ends the code before it: no marker, and either two slashes at its start or an opener
at the start of the stripped line. -/
def isCutLine (line : Text) : Bool :=
  !isMarkerLine line && (lineCommentMark.isPrefixOf line || commentOpener.isPrefixOf line.strip)

namespace LineKind

theorem of_eq_marker_iff {line : Text} : LineKind.of line = .marker ↔ isMarkerLine line = true := by
  unfold LineKind.of isMarkerLine
  split
  · rename_i h
    exact ⟨fun _ => h, fun _ => rfl⟩
  · rename_i h
    constructor
    · intro hof
      split at hof
      · cases hof
      · split at hof <;> cases hof
    · exact fun hmarker => absurd hmarker h

theorem isMarkerLine_eq (line : Text) : isMarkerLine line = decide (LineKind.of line = .marker) := by
  rw [Bool.eq_iff_iff, decide_eq_true_iff, of_eq_marker_iff]

/-- A line that starts with two slashes has no opener at the start of what is left of it when it is
stripped. -/
theorem not_opener_of_mark {line : Text} (h : lineCommentMark <+: line) :
    ¬ commentOpener <+: line.strip := by
  intro hopener
  have hmark : lineCommentMark <+: line.strip := Text.prefix_strip_of_prefix (by decide) h
  have heq := List.prefix_of_prefix_length_le hmark hopener (by decide)
  exact absurd heq (by decide)

theorem mark_of_marker {line : Text} (h : linkMarker <+: line) : lineCommentMark <+: line :=
  List.IsPrefix.trans (by decide) h

theorem of_eq_lineComment_iff {line : Text} :
    LineKind.of line = .lineComment ↔ IsOneLineComment line := by
  unfold LineKind.of IsOneLineComment
  simp only [List.isPrefixOf_iff_prefix, List.isSuffixOf_iff_suffix, Bool.or_eq_true,
    Bool.and_eq_true]
  by_cases hmarker : linkMarker <+: line
  · have hopener := not_opener_of_mark (mark_of_marker hmarker)
    simp [hmarker, hopener]
  · rw [if_neg hmarker]
    split
    · rename_i h
      simp only [true_iff]
      exact h.symm.imp (fun hmark => ⟨hmark, hmarker⟩) id
    · rename_i h
      constructor
      · intro hof
        split at hof <;> cases hof
      · intro hone
        exact absurd (hone.symm.imp id And.left) h

/-- A line that opens a block comment has an opener at its start and no closer at its end. -/
theorem of_eq_commentStart {line : Text} (h : LineKind.of line = .commentStart) :
    commentOpener <+: line.strip ∧ ¬ commentCloser <:+ line.strip := by
  unfold LineKind.of at h
  split at h
  · cases h
  · split at h
    · cases h
    · rename_i hone
      split at h
      · rename_i hopener
        rw [List.isPrefixOf_iff_prefix] at hopener
        refine ⟨hopener, ?_⟩
        intro hcloser
        simp [hopener, hcloser] at hone
      · cases h

/-- A plain line starts no comment. -/
theorem of_eq_plain {line : Text} (h : LineKind.of line = .plain) :
    ¬ lineCommentMark <+: line ∧ ¬ commentOpener <+: line.strip := by
  unfold LineKind.of at h
  split at h
  · cases h
  · split at h
    · cases h
    · rename_i hone
      split at h
      · cases h
      · rename_i hopener
        simp only [Bool.or_eq_true, List.isPrefixOf_iff_prefix, not_or] at hone hopener
        exact ⟨hone.2, hopener⟩

theorem of_eq_plain_iff {line : Text} :
    LineKind.of line = .plain ↔ ¬ lineCommentMark <+: line ∧ ¬ commentOpener <+: line.strip := by
  refine ⟨of_eq_plain, ?_⟩
  rintro ⟨hmark, hopener⟩
  cases hkind : LineKind.of line with
  | marker =>
    have hmarker : linkMarker <+: line := List.isPrefixOf_iff_prefix.mp (of_eq_marker_iff.mp hkind)
    exact absurd (mark_of_marker hmarker) hmark
  | lineComment =>
    rcases of_eq_lineComment_iff.mp hkind with ⟨hyes, -⟩ | ⟨hyes, -⟩
    · exact absurd hyes hmark
    · exact absurd hyes hopener
  | commentStart => exact absurd (of_eq_commentStart hkind).1 hopener
  | plain => rfl

theorem of_eq_commentStart_iff {line : Text} :
    LineKind.of line = .commentStart ↔
      commentOpener <+: line.strip ∧ ¬ commentCloser <:+ line.strip := by
  refine ⟨of_eq_commentStart, ?_⟩
  rintro ⟨hopener, hcloser⟩
  cases hkind : LineKind.of line with
  | marker =>
    have hmarker : linkMarker <+: line := List.isPrefixOf_iff_prefix.mp (of_eq_marker_iff.mp hkind)
    exact absurd hopener (not_opener_of_mark (mark_of_marker hmarker))
  | lineComment =>
    rcases of_eq_lineComment_iff.mp hkind with ⟨hmark, -⟩ | ⟨-, hyes⟩
    · exact absurd hopener (not_opener_of_mark hmark)
    · exact absurd hyes hcloser
  | commentStart => rfl
  | plain => exact absurd hopener (of_eq_plain hkind).2

theorem cuts_of (line : Text) : (LineKind.of line).cuts = isCutLine line := by
  unfold LineKind.of isCutLine isMarkerLine
  cases linkMarker.isPrefixOf line <;> cases commentOpener.isPrefixOf line.strip <;>
    cases lineCommentMark.isPrefixOf line <;> cases commentCloser.isSuffixOf line.strip <;> rfl

end LineKind

end LessonPages
