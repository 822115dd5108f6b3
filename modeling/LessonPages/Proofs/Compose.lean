import LessonPages.Proofs.BlockLines
import LessonPages.Proofs.Conservation
import LessonPages.Proofs.Lines

/-!
# Lessons one behind the other

A comment line ends the code before it, whatever it stands behind. So a lesson that is over when a
comment line comes may as well end there: the rest is a lesson of its own.

* `Classifier.Settled.step_of_cut` — at a comment line that is met in code, the classifier finishes
  and starts again.
* `classify_append` — the blocks and the page of two lessons, one behind the other.
-/

namespace LessonPages

namespace Classifier

variable {s : Classifier} {line : Text}

theorem Settled.run (h : s.Settled) (lines : List Text) : (s.run lines).1.Settled := by
  induction lines generalizing s with
  | nil => exact h
  | cons line rest ih => exact ih (h.step line)

theorem blocksOf_append (s : Classifier) (ls ms : List Text) :
    s.blocksOf (ls ++ ms) = (s.run ls).2 ++ (s.run ls).1.blocksOf ms := by
  simp only [blocksOf, run_append, List.append_assoc]

/-- A line that ends code, met in code, is taken as if the lesson were over and another one started
with it. -/
theorem Settled.step_of_cut (h : s.Settled) (hmode : s.mode = .code) (hcut : isCutLine line = true) :
    (s.step line).1 = (start.step line).1 ∧ (s.step line).2 = s.finish ++ (start.step line).2 := by
  have hcomment := h.comment_nil hmode
  have hflush : s.flush.1 = start := by rw [flush, hmode, hcomment]; rfl
  have hfinish : s.finish = s.pendingCode := by rw [finish, hcomment]; exact List.append_nil _
  have hcuts := LineKind.cuts_of line
  rw [hcut] at hcuts
  cases hkind : LineKind.of line with
  | marker | plain =>
    rw [hkind] at hcuts
    cases hcuts
  | lineComment =>
    simp only [Classifier.step, hkind, hflush, hfinish]
    exact ⟨rfl, rfl⟩
  | commentStart =>
    simp only [Classifier.step, hkind, hflush, hfinish, hcomment]
    exact ⟨rfl, (List.append_nil _).symm⟩

theorem Settled.blocksOf_of_cut (h : s.Settled) (hmode : s.mode = .code)
    (hcut : isCutLine line = true) (rest : List Text) :
    s.blocksOf (line :: rest) = s.finish ++ start.blocksOf (line :: rest) := by
  obtain ⟨hstate, hgiven⟩ := h.step_of_cut hmode hcut
  rw [blocksOf_cons, blocksOf_cons, hstate, hgiven, List.append_assoc]

/-- A line that ends code is itself a comment, so it gives a block. -/
theorem blocksOf_ne_nil_of_cut (s : Classifier) (hcut : isCutLine line = true) (rest : List Text) :
    s.blocksOf (line :: rest) ≠ [] := by
  have hcuts := LineKind.cuts_of line
  rw [hcut] at hcuts
  rw [blocksOf_cons]
  cases hkind : LineKind.of line with
  | marker | plain =>
    rw [hkind] at hcuts
    cases hcuts
  | lineComment =>
    apply List.append_ne_nil_of_left_ne_nil
    simp [step, hkind]
  | commentStart =>
    apply List.append_ne_nil_of_right_ne_nil
    apply blocksOf_ne_nil
    simp [step, hkind]

end Classifier

/-! ## Pages -/

/-- **Lessons compose.** When a lesson ends where a line ends and outside of a comment, and another
one starts with a comment line, the two of them, one behind the other, have the blocks of the first
and then those of the second; and their page is that of the first, if it has blocks, followed by that
of the second on a new line. -/
theorem classify_append {a b first : Text} (ha : a.EndsLine)
    (hmode : (Classifier.start.run a.lines).1.mode = .code) (hfirst : b.lines.head? = some first)
    (hcut : isCutLine first = true) :
    classify (a ++ b) = classify a ++ classify b ∧
      (classify a ≠ [] → ∀ language, Page.ofLesson language (a ++ b) =
        Page.ofLesson language a ++ '\n' :: Page.ofLesson language b) := by
  obtain ⟨rest, hb⟩ : ∃ rest, b.lines = first :: rest := List.head?_eq_some_iff.mp hfirst
  have hsettled := Classifier.settled_start.run a.lines
  have happend : classify (a ++ b) = classify a ++ classify b := by
    calc classify (a ++ b) = Classifier.start.blocksOf (a.lines ++ b.lines) := by
          rw [← Text.lines_append ha]; rfl
      _ = (Classifier.start.run a.lines).2 ++
            ((Classifier.start.run a.lines).1.finish ++ Classifier.start.blocksOf b.lines) := by
          rw [Classifier.blocksOf_append, hb, hsettled.blocksOf_of_cut hmode hcut]
      _ = classify a ++ classify b := (List.append_assoc _ _ _).symm
  refine ⟨happend, ?_⟩
  intro hne language
  have hblocks : classify b ≠ [] := by
    show Classifier.start.blocksOf b.lines ≠ []
    rw [hb]
    exact Classifier.start.blocksOf_ne_nil_of_cut hcut rest
  rw [Page.ofLesson, Page.ofBlocks, happend, List.flatMap_append,
    Text.joinLines_append (flatMap_pageLines_ne_nil hne language)
      (flatMap_pageLines_ne_nil hblocks language)]
  rfl

/-- The first lesson ends with a blank line and a request for a link, both behind its code; the second
one starts with a comment that is indented. -/
theorem classify_append_linked :
    classify ("let x = 1\n\n// @playground-link\n".toList ++ " /* why\n*/\nlet y = 2".toList) =
        [⟨.linkedCode, ["let x = 1".toList, []]⟩, ⟨.comment, ["/* why".toList, "*/".toList]⟩,
          ⟨.code, ["let y = 2".toList]⟩] ∧
      Page.ofLesson defaultLanguage
          ("let x = 1\n\n// @playground-link\n".toList ++ " /* why\n*/\nlet y = 2".toList) =
        Page.ofLesson defaultLanguage "let x = 1\n\n// @playground-link\n".toList ++
          '\n' :: Page.ofLesson defaultLanguage " /* why\n*/\nlet y = 2".toList := by
  have hfirst : (Text.lines " /* why\n*/\nlet y = 2".toList).head? = some " /* why".toList := by
    decide
  obtain ⟨hblocks, hpage⟩ := classify_append (a := "let x = 1\n\n// @playground-link\n".toList)
    (.inr (by decide)) (by decide) hfirst (by decide)
  refine ⟨?_, hpage (by decide) defaultLanguage⟩
  rw [hblocks]
  decide

end LessonPages
