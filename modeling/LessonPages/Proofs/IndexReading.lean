import Mathlib.Data.List.Forall2
import LessonPages.Index
import LessonPages.Proofs.Lines

/-!
# The index is read back

An index shows each page twice in one line, as a label and as a link, and escapes nothing in either. A
label never holds a slash, so the first slash of a line is the one of the link, and what stands behind it
is the name of the page as it is.

* `Index.Links` — a line links to a page; `Index.linkedPage` — what a reader takes from a line.
* `Index.splitOn_page` — the lines of an index.
* `Index.page_tells` — the pages are read back from the index, and no other pages have the same one.
-/

namespace LessonPages

theorem mem_of_mem_replaceChar {old new c : Char} {t : Text} (h : c ∈ t.replaceChar old new) :
    c = new ∨ c ∈ t := by
  obtain ⟨x, hx, rfl⟩ := List.mem_map.mp h
  split
  · exact .inl rfl
  · exact .inr hx

namespace Index

variable {name line : Text} {names : List Text}

/-- A line links to a page: its name stands behind the first slash, and a bracket behind the name. -/
def Links (line name : Text) : Prop :=
  ∃ before, '/' ∉ before ∧ line = before ++ '/' :: (name ++ [')'])

/-- What stands behind the first slash of a line, without the last character. -/
def linkedPage (line : Text) : Text := (line.dropWhile (· != '/')).tail.dropLast

/-! ## One line -/

theorem Links.linkedPage_eq (h : Links line name) : linkedPage line = name := by
  obtain ⟨before, hbefore, rfl⟩ := h
  have hskip : ∀ c ∈ before, (c != '/') = true := by
    intro c hc
    have hne : c ≠ '/' := fun hslash => hbefore (hslash ▸ hc)
    simpa using hne
  rw [linkedPage, List.dropWhile_append_of_pos hskip, List.dropWhile_cons_of_neg (by simp),
    List.tail_cons, List.dropLast_concat]

/-- A line is a label in brackets and a link from the folder of the index. -/
theorem line_eq (name : Text) : Index.line name =
    "- [".toList ++ indexLabel name ++ "](".toList ++ '.' :: '/' :: name ++ ")".toList := rfl

theorem slash_not_mem_indexLabel (name : Text) : '/' ∉ indexLabel name :=
  Text.not_mem_replaceChar (by decide) _

/-- **The line of a page links to it**, whatever its name is. -/
theorem links_line (name : Text) : Links (Index.line name) name := by
  refine ⟨"- [".toList ++ indexLabel name ++ "](.".toList, ?_, ?_⟩
  · have hlabel := slash_not_mem_indexLabel name
    simp [hlabel]
  · simp [line_eq]

/-- A name without newlines takes one line. -/
theorem newline_not_mem_line (h : '\n' ∉ name) : '\n' ∉ Index.line name := by
  have hlabel : '\n' ∉ indexLabel name := by
    intro hmem
    rcases mem_of_mem_replaceChar hmem with hnew | hmem
    · cases hnew
    · rcases mem_of_mem_replaceChar hmem with hnew | hmem
      · cases hnew
      · exact h hmem
  simp [line_eq, hlabel, h]

/-! ## All lines -/

/-- The lines of an index: a heading, an empty line and one line for each page, each of them ended. -/
theorem splitOn_page (h : ∀ name ∈ names, '\n' ∉ name) :
    (page names).splitOn '\n' = heading :: [] :: (names.map Index.line ++ [[]]) := by
  have hlines : ∀ line ∈ heading :: [] :: names.map Index.line, '\n' ∉ line := by
    have hheading : '\n' ∉ heading := by decide
    simp only [List.forall_mem_cons, List.forall_mem_map]
    exact ⟨hheading, List.not_mem_nil, fun name hname => newline_not_mem_line (h name hname)⟩
  rw [page, List.splitOn_append_cons_self, Text.joinLines,
    List.splitOn_intercalate '\n' hlines (List.cons_ne_nil _ _), List.splitOn_nil]
  rfl

/-- **An index tells its pages.** Behind the heading and an empty line it has one line for each page, in
order, and no line behind them; each of these lines links to its page, and what a reader takes from them
are the names of the pages. So no other pages have the same index. -/
theorem page_tells {names : List Text} (h : ∀ name ∈ names, '\n' ∉ name) :
    ∃ first second lines, (page names).splitOn '\n' = first :: second :: (lines ++ [[]]) ∧
      List.Forall₂ Links lines names ∧ lines.map linkedPage = names ∧
      ∀ other : List Text, (∀ name ∈ other, '\n' ∉ name) → page other = page names →
        other = names := by
  have hread : ∀ names : List Text, (names.map Index.line).map linkedPage = names := by
    intro names
    rw [List.map_map]
    exact (List.map_congr_left fun name _ => (links_line name).linkedPage_eq).trans (List.map_id names)
  refine ⟨heading, [], names.map Index.line, splitOn_page h, ?_, hread names, ?_⟩
  · rw [List.forall₂_map_left_iff, List.forall₂_same]
    exact fun name _ => links_line name
  · intro other hother hsame
    have hlines := (splitOn_page hother).symm.trans (hsame ▸ splitOn_page h)
    simp only [List.cons.injEq, true_and, List.append_cancel_right_eq] at hlines
    rw [← hread other, hlines, hread names]

/-- Names with what the index itself is written in, one of them twice. -/
theorem page_tells_brackets :
    ∃ first second lines,
      (page ["a](./b)".toList, "- [x-y/z".toList, [], "a](./b)".toList]).splitOn '\n' =
          first :: second :: (lines ++ [[]]) ∧
        lines.map linkedPage = ["a](./b)".toList, "- [x-y/z".toList, [], "a](./b)".toList] := by
  obtain ⟨first, second, lines, hlines, -, hread, -⟩ :=
    @page_tells ["a](./b)".toList, "- [x-y/z".toList, [], "a](./b)".toList] (by decide)
  exact ⟨first, second, lines, hlines, hread⟩

end Index

end LessonPages
