import Mathlib.Data.List.Basic
import LessonPages.Text.Lines

/-!
# Parts and lines

Texts are cut at separators and put together again. Lines go part by part where a text ends with a
newline, and parts that hold no separator are not lost in between.

* `mem_splitOn` — the parts of a text hold no separator.
* `intercalate_append` — parts put together, some behind others.
* `Text.lines_append` — the lines of two texts, one behind the other; `Text.lines_of_not_mem` — a text of
  one line.
* `Text.newline_not_mem_of_mem_lines` — no line of a text holds a newline.
-/

namespace LessonPages

/-- A part between separators holds no separator, and nothing that the text does not hold. -/
theorem mem_splitOn {c : Char} {path part : Text} (h : part ∈ path.splitOn c) :
    c ∉ part ∧ part ⊆ path := by
  induction path generalizing part with
  | nil =>
    rw [List.splitOn_nil, List.mem_singleton] at h
    subst h
    exact ⟨List.not_mem_nil, List.Subset.refl _⟩
  | cons first rest ih =>
    rw [List.splitOn_cons_eq_if_modifyHead] at h
    split at h
    · rcases List.mem_cons.mp h with rfl | h
      · exact ⟨List.not_mem_nil, List.nil_subset _⟩
      · exact ⟨(ih h).1, List.subset_cons_of_subset _ (ih h).2⟩
    · rename_i hfirst
      obtain ⟨head, tail, hsplit⟩ := List.exists_cons_of_ne_nil (List.splitOn_ne_nil c rest)
      rw [hsplit, List.modifyHead_cons] at h
      rcases List.mem_cons.mp h with rfl | h
      · obtain ⟨hnot, hsub⟩ := ih (hsplit ▸ List.mem_cons_self)
        refine ⟨?_, List.cons_subset_cons _ hsub⟩
        rintro (_ | ⟨_, hmem⟩)
        · simp at hfirst
        · exact hnot hmem
      · obtain ⟨hnot, hsub⟩ := ih (hsplit ▸ List.mem_cons_of_mem _ h)
        exact ⟨hnot, List.subset_cons_of_subset _ hsub⟩

theorem intercalate_append {sep : Text} {ps qs : List Text} (hps : ps ≠ []) (hqs : qs ≠ []) :
    sep.intercalate (ps ++ qs) = sep.intercalate ps ++ sep ++ sep.intercalate qs := by
  induction ps with
  | nil => exact absurd rfl hps
  | cons p ps ih =>
    by_cases hnil : ps = []
    · subst hnil
      rw [List.singleton_append, List.intercalate_cons_of_ne_nil hqs, List.intercalate_singleton]
    · rw [List.cons_append, List.intercalate_cons_of_ne_nil (by simp [hnil]),
        List.intercalate_cons_of_ne_nil hnil, ih hnil]
      simp only [List.append_assoc]

theorem mem_of_mem_intercalate {c : Char} {names : List Text} (h : c ∈ ['/'].intercalate names) :
    c = '/' ∨ ∃ name ∈ names, c ∈ name := by
  induction names with
  | nil => cases h
  | cons name rest ih =>
    by_cases hrest : rest = []
    · subst hrest
      rw [List.intercalate_singleton] at h
      exact .inr ⟨name, List.mem_cons_self, h⟩
    · rw [List.intercalate_cons_of_ne_nil hrest, List.append_assoc] at h
      rcases List.mem_append.mp h with h | h
      · exact .inr ⟨name, List.mem_cons_self, h⟩
      · rcases List.mem_append.mp h with h | h
        · exact .inl (List.mem_singleton.mp h)
        · rcases ih h with h | ⟨other, hother, h⟩
          · exact .inl h
          · exact .inr ⟨other, List.mem_cons_of_mem _ hother, h⟩

namespace Text

/-- Whether a text ends where a line ends. -/
def EndsLine (t : Text) : Prop := t = [] ∨ t.getLast? = some '\n'

theorem dropEmptyLast_append (pieces : List Text) {more : List Text} (hmore : more ≠ []) :
    dropEmptyLast (pieces ++ more) = pieces ++ dropEmptyLast more := by
  unfold dropEmptyLast
  rw [List.getLast?_append_of_ne_nil _ hmore, List.dropLast_append_of_ne_nil hmore]
  split <;> rfl

/-- **The lines of a text go on behind those of one that ends where a line ends.** -/
theorem lines_append {a : Text} (ha : a.EndsLine) (b : Text) :
    lines (a ++ b) = lines a ++ lines b := by
  rcases ha with rfl | hlast
  · rfl
  · obtain ⟨front, rfl⟩ := List.getLast?_eq_some_iff.mp hlast
    have hfront : dropEmptyLast ((front ++ ['\n']).splitOn '\n') = front.splitOn '\n' := by
      rw [List.splitOn_append_cons_self, dropEmptyLast_append _ (List.splitOn_ne_nil _ _)]
      exact List.append_nil _
    rw [lines, lines, lines, hfront, List.append_assoc, List.singleton_append,
      List.splitOn_append_cons_self, dropEmptyLast_append _ (List.splitOn_ne_nil _ _),
      List.map_append]

/-- A text without a newline is one line, unless it is empty. -/
theorem lines_of_not_mem {t : Text} (hne : t ≠ []) (h : '\n' ∉ t) : lines t = [dropReturn t] := by
  have hkept : dropEmptyLast [t] = [t] := by simp [dropEmptyLast, hne]
  rw [lines, List.splitOn_eq_singleton h, hkept]
  rfl

theorem newline_not_mem_of_mem_lines {t line : Text} (h : line ∈ lines t) : '\n' ∉ line := by
  obtain ⟨piece, hpiece, rfl⟩ := List.mem_map.mp h
  have hmem : piece ∈ t.splitOn '\n' := by
    unfold dropEmptyLast at hpiece
    split at hpiece
    · exact List.dropLast_subset _ hpiece
    · exact hpiece
  have hnot : '\n' ∉ piece := (mem_splitOn hmem).1
  unfold dropReturn
  split
  · exact fun hline => hnot (List.dropLast_subset _ hline)
  · exact hnot

theorem joinLines_append {ls ms : List Text} (hls : ls ≠ []) (hms : ms ≠ []) :
    joinLines (ls ++ ms) = joinLines ls ++ '\n' :: joinLines ms := by
  rw [joinLines, intercalate_append hls hms, List.append_assoc]
  rfl

end Text

end LessonPages
