import LessonPages.Page
import LessonPages.Proofs.Segments

/-!
# The lines of blocks

A block is never empty, and each of its lines is a line of the lesson as it is or stripped. So what
holds of the lines of a lesson, and does not mind stripping, holds of the lines of its blocks.

* `Block.Has` — what is said of a block.
* `Classifier.step_has`, `Classifier.blocksOf_has` — one step, and a run up to the end of the lesson.
* `classify_has` — the blocks of a lesson.
* `flatMap_pageLines_ne_nil` — a lesson with blocks has a page with lines.
-/

namespace LessonPages

variable {P : Text → Prop}

/-- A block that is not empty and each line of which has a property. -/
structure Block.Has (P : Text → Prop) (b : Block) : Prop where
  ne_nil : b.lines ≠ []
  all : ∀ line ∈ b.lines, P line

namespace Classifier

variable {s : Classifier} {line : Text}

/-- The lines held between two lines of a lesson have a property. -/
structure Holds (P : Text → Prop) (s : Classifier) : Prop where
  code : ∀ line ∈ s.code, P line
  comment : ∀ line ∈ s.comment, P line

theorem pendingCode_has (h : s.Holds P) : ∀ b ∈ s.pendingCode, b.Has P := by
  intro b hb
  unfold pendingCode at hb
  split at hb
  · rename_i hcontent
    obtain rfl := List.mem_singleton.mp hb
    refine ⟨?_, h.code⟩
    rintro (hnil : s.code = [])
    rw [hnil] at hcontent
    cases hcontent
  · cases hb

theorem comment_snoc (h : s.Holds P) (hline : P line) : ∀ l ∈ s.comment ++ [line], P l := by
  intro l hl
  rcases List.mem_append.mp hl with hl | hl
  · exact h.comment l hl
  · rwa [List.mem_singleton.mp hl]

/-- A step gives out blocks, and holds lines, of which the same is true as of the lines it had and the
one it took. -/
theorem step_has (hstrip : ∀ l, P l → P l.strip) (h : s.Holds P) (hline : P line) :
    (∀ b ∈ (s.step line).2, b.Has P) ∧ (s.step line).1.Holds P := by
  have hopen := comment_snoc h (hstrip line hline)
  unfold step
  split
  · exact ⟨by simp, h.code, h.comment⟩
  · refine ⟨?_, by simp [flush], h.comment⟩
    intro b hb
    rcases List.mem_append.mp hb with hb | hb
    · exact pendingCode_has h b hb
    · obtain rfl := List.mem_singleton.mp hb
      exact ⟨by simp, by simpa using hline⟩
  · exact ⟨pendingCode_has h, by simp [flush], hopen⟩
  · split
    · refine ⟨by simp, ?_, h.comment⟩
      intro l hl
      rcases List.mem_append.mp hl with hl | hl
      · exact h.code l hl
      · rwa [List.mem_singleton.mp hl]
    · simp only
      split
      · refine ⟨?_, h.code, by simp⟩
        intro b hb
        obtain rfl := List.mem_singleton.mp hb
        exact ⟨by simp, hopen⟩
      · exact ⟨by simp, h.code, hopen⟩

theorem finish_has (h : s.Holds P) : ∀ b ∈ s.finish, b.Has P := by
  intro b hb
  rcases List.mem_append.mp hb with hb | hb
  · exact pendingCode_has h b hb
  · split at hb
    · cases hb
    · rename_i hopen
      obtain rfl := List.mem_singleton.mp hb
      exact ⟨by simpa using hopen, h.comment⟩

theorem blocksOf_has (hstrip : ∀ l, P l → P l.strip) (h : s.Holds P) {lines : List Text}
    (hlines : ∀ line ∈ lines, P line) : ∀ b ∈ s.blocksOf lines, b.Has P := by
  induction lines generalizing s with
  | nil => exact finish_has h
  | cons line rest ih =>
    obtain ⟨hgiven, hheld⟩ := step_has hstrip h (hlines line List.mem_cons_self)
    rw [blocksOf_cons]
    intro b hb
    rcases List.mem_append.mp hb with hb | hb
    · exact hgiven b hb
    · exact ih hheld (fun l hl => hlines l (List.mem_cons_of_mem _ hl)) b hb

/-- A comment that is open gives a block, at the latest at the end of the lesson. -/
theorem blocksOf_ne_nil (h : s.comment ≠ []) (lines : List Text) : s.blocksOf lines ≠ [] := by
  induction lines generalizing s with
  | nil =>
    rw [blocksOf, run_nil, List.nil_append, finish, if_neg (by simpa using h)]
    simp
  | cons line rest ih =>
    rw [blocksOf_cons, step]
    split
    · exact ih h
    · simp
    · exact List.append_ne_nil_of_right_ne_nil _ (ih (by simp))
    · split
      · exact ih h
      · simp only
        split
        · simp
        · exact ih (by simp)

end Classifier

/-- **What holds of the lines of a lesson, stripped or not, holds of the lines of its blocks.** -/
theorem classify_has (hstrip : ∀ l, P l → P l.strip) {lesson : Text}
    (hlines : ∀ line ∈ lesson.lines, P line) : ∀ b ∈ classify lesson, b.Has P :=
  Classifier.blocksOf_has hstrip ⟨by simp [Classifier.start], by simp [Classifier.start]⟩ hlines

/-! ## Pages -/

theorem Block.pageLines_ne_nil {b : Block} (h : b.lines ≠ []) (language : Text) :
    b.pageLines language ≠ [] := by
  unfold pageLines
  split <;> simp [h]

theorem flatMap_pageLines_ne_nil {lesson : Text} (h : classify lesson ≠ []) (language : Text) :
    (classify lesson).flatMap (Block.pageLines language) ≠ [] := by
  obtain ⟨b, hb⟩ := List.exists_mem_of_ne_nil _ h
  have hlines : b.lines ≠ [] :=
    (classify_has (P := fun _ => True) (fun _ _ => trivial) (fun _ _ => trivial) b hb).ne_nil
  obtain ⟨line, hline⟩ := List.exists_mem_of_ne_nil _ (Block.pageLines_ne_nil hlines language)
  apply List.ne_nil_of_mem (a := line)
  exact List.mem_flatMap.mpr ⟨b, hb, hline⟩

end LessonPages
