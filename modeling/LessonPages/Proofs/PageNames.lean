import Mathlib.Data.List.TakeWhile
import LessonPages.Discovery
import LessonPages.Naming
import LessonPages.Proofs.Paths

/-!
# Names of pages

A page has the parts of its lesson's name, the last one with another extension. So pages have
different names exactly if their lessons differ in more than an extension.

* `pageStem` — what a page has from its lesson's name; `pageName_inj` — it decides on the page.
* `isStep_of_mem_pageName` — the parts of a page's name.
* `pageStem_append` — the stem of a lesson with an extension.
-/

namespace LessonPages

/-- What the page of a lesson takes from the lesson's name. -/
def pageStem (lesson : Text) : Text := Path.dropExtension (lesson.replaceChar '\\' '/')

theorem pageName_eq (extension lesson : Text) :
    pageName extension lesson = pageStem lesson ++ dotted extension := rfl

theorem pageName_inj {extension lesson other : Text} :
    pageName extension lesson = pageName extension other ↔ pageStem lesson = pageStem other := by
  rw [pageName_eq, pageName_eq, List.append_left_inj]

theorem replaceChar_of_not_mem {old new : Char} {t : Text} (h : old ∉ t) :
    Text.replaceChar old new t = t := by
  refine (List.map_congr_left ?_).trans (List.map_id t)
  intro c hc
  have hne : c ≠ old := fun hold => h (hold ▸ hc)
  rw [if_neg hne, id]

/-! ## Cutting at the last occurrence of a character -/

theorem exists_last {c : Char} {t : Text} (h : c ∈ t) : ∃ a b, t = a ++ c :: b ∧ c ∉ b := by
  obtain ⟨b, a, ht, hb⟩ := List.eq_append_cons_of_mem (List.mem_reverse.mpr h)
  refine ⟨a.reverse, b.reverse, ?_, by simpa using hb⟩
  rw [← List.reverse_reverse t, ht]
  simp

theorem trimRight_of_not_mem {c : Char} {t : Text} (h : c ∉ t) :
    Text.trimRight (· != c) t = [] := by
  rw [Text.trimRight, List.reverse_eq_nil_iff, List.dropWhile_eq_nil_iff]
  intro x hx
  have hne : x ≠ c := fun hc => h (hc ▸ List.mem_reverse.mp hx)
  simpa using hne

theorem trimRight_append_cons {c : Char} (a : Text) {b : Text} (h : c ∉ b) :
    Text.trimRight (· != c) (a ++ c :: b) = a ++ [c] := by
  have hb : ∀ x ∈ b.reverse, (x != c) = true := by
    intro x hx
    have hne : x ≠ c := fun hc => h (hc ▸ List.mem_reverse.mp hx)
    simpa using hne
  rw [Text.trimRight, List.reverse_append, List.reverse_cons, List.append_assoc,
    List.dropWhile_append_of_pos hb]
  simp

theorem cutLastSlash_of_not_mem {p : Text} (h : '/' ∉ p) : Path.cutLastSlash p = ([], p) := by
  have happend := Path.cutLastSlash_append p
  have hfst : (Path.cutLastSlash p).1 = [] := trimRight_of_not_mem h
  rw [hfst, List.nil_append] at happend
  exact Prod.ext hfst happend

theorem cutLastSlash_append_cons (front : Text) {last : Text} (h : '/' ∉ last) :
    Path.cutLastSlash (front ++ '/' :: last) = (front ++ ['/'], last) := by
  have happend := Path.cutLastSlash_append (front ++ '/' :: last)
  have hfst : (Path.cutLastSlash (front ++ '/' :: last)).1 = front ++ ['/'] :=
    trimRight_append_cons front h
  rw [hfst, List.append_assoc, List.singleton_append, List.append_cancel_left_eq,
    List.cons.injEq] at happend
  exact Prod.ext hfst happend.2

theorem cutLastSlash_append_right (p : Text) {m : Text} (h : '/' ∉ m) :
    Path.cutLastSlash (p ++ m) = ((Path.cutLastSlash p).1, (Path.cutLastSlash p).2 ++ m) := by
  by_cases hslash : '/' ∈ p
  · obtain ⟨front, last, rfl, hlast⟩ := exists_last hslash
    have hnot : '/' ∉ last ++ m := by simp [hlast, h]
    rw [List.append_assoc, List.cons_append, cutLastSlash_append_cons front hnot,
      cutLastSlash_append_cons front hlast]
  · have hnot : '/' ∉ p ++ m := by simp [hslash, h]
    rw [cutLastSlash_of_not_mem hnot, cutLastSlash_of_not_mem hslash]

/-- What stands before the last slash of a path, with that slash, goes on with any last name. -/
theorem splitOn_cutLastSlash (p : Text) :
    (Path.cutLastSlash p).2 ∈ p.splitOn '/' ∧ ∀ name : Text, '/' ∉ name →
      ((Path.cutLastSlash p).1 ++ name).splitOn '/' = (p.splitOn '/').dropLast ++ [name] := by
  by_cases hslash : '/' ∈ p
  · obtain ⟨front, last, rfl, hlast⟩ := exists_last hslash
    rw [cutLastSlash_append_cons front hlast, List.splitOn_append_cons_self,
      List.splitOn_eq_singleton hlast, List.dropLast_concat]
    refine ⟨by simp, ?_⟩
    intro name hname
    rw [List.append_assoc, List.singleton_append, List.splitOn_append_cons_self,
      List.splitOn_eq_singleton hname]
  · rw [cutLastSlash_of_not_mem hslash, List.splitOn_eq_singleton hslash]
    exact ⟨List.mem_singleton_self p, fun name hname => List.splitOn_eq_singleton hname⟩

/-! ## Stems -/

/-- A last name either is its own stem, or it is a stem with more than dots and an extension. -/
theorem nameStem_cases (name : Text) : Path.nameStem name = name ∨
    ∃ extension, name = Path.nameStem name ++ '.' :: extension ∧
      (Path.nameStem name).all (· == '.') = false := by
  by_cases hdot : '.' ∈ name
  · obtain ⟨stem, extension, rfl, hextension⟩ := exists_last hdot
    rw [Path.nameStem, trimRight_append_cons stem hextension, List.dropLast_concat]
    split
    · exact .inl rfl
    · rename_i hall
      exact .inr ⟨extension, rfl, by simpa using hall⟩
  · left
    rw [Path.nameStem, trimRight_of_not_mem hdot]
    rfl

theorem nameStem_append_cons {stem extension : Text} (hstem : stem.all (· == '.') = false)
    (hextension : '.' ∉ extension) : Path.nameStem (stem ++ '.' :: extension) = stem := by
  rw [Path.nameStem, trimRight_append_cons stem hextension, List.dropLast_concat,
    if_neg (by simp [hstem])]

theorem isStep_of_not_dots {name : Text} (h : name.all (· == '.') = false) : IsStep name := by
  refine ⟨?_, ?_, ?_⟩ <;> rintro rfl <;> cases h

theorem IsStep.append {name : Text} (h : IsStep name) (more : Text) : IsStep (name ++ more) := by
  obtain ⟨hnil, hhere, hup⟩ := h
  refine ⟨by simp [hnil], ?_, ?_⟩
  · intro heq
    rcases List.append_eq_singleton_iff.mp heq with ⟨hname, -⟩ | ⟨hname, -⟩
    · exact hnil hname
    · exact hhere hname
  · intro heq
    rcases List.append_eq_cons_iff.mp heq with ⟨hname, -⟩ | ⟨rest, rfl, hrest⟩
    · exact hnil hname
    · rcases List.append_eq_singleton_iff.mp hrest.symm with ⟨hname, -⟩ | ⟨hname, -⟩
      · exact hhere (by rw [hname]; rfl)
      · exact hup (by rw [hname]; rfl)

/-- With an extension, the last name of a lesson is one that leads on, and no slash comes in. -/
theorem isStep_nameStem {name extension : Text} (hname : IsStep name) (hslash : '/' ∉ name)
    (hextension : '/' ∉ extension) :
    IsStep (Path.nameStem name ++ extension) ∧ '/' ∉ Path.nameStem name ++ extension := by
  rw [List.mem_append, not_or]
  rcases nameStem_cases name with hstem | ⟨ending, hending, hall⟩
  · rw [hstem]
    exact ⟨hname.append extension, hslash, hextension⟩
  · refine ⟨(isStep_of_not_dots hall).append extension, ?_, hextension⟩
    intro hmem
    exact hslash (by rw [hending]; exact List.mem_append_left _ hmem)

/-! ## Pages -/

/-- **The parts of a page's name lead on, if those of its lesson's name do.** -/
theorem isStep_of_mem_pageName {lesson extension : Text} (hback : '\\' ∉ lesson)
    (hparts : ∀ part ∈ lesson.splitOn '/', IsStep part) (hextension : '/' ∉ dotted extension) :
    ∀ part ∈ (pageName extension lesson).splitOn '/', IsStep part := by
  obtain ⟨hmem, hsplit⟩ := splitOn_cutLastSlash lesson
  obtain ⟨hstep, hslash⟩ :=
    isStep_nameStem (hparts _ hmem) (mem_splitOn hmem).1 hextension
  rw [pageName, replaceChar_of_not_mem hback, Path.dropExtension, List.append_assoc, hsplit _ hslash]
  intro part hpart
  rcases List.mem_append.mp hpart with hpart | hpart
  · exact hparts part (List.dropLast_subset _ hpart)
  · rwa [List.mem_singleton.mp hpart]

theorem not_all_dots {name : Text} {ending : Text}
    (h : Discovery.isHidden (name ++ '.' :: ending) = false) : name.all (· == '.') = false := by
  cases name with
  | nil => simp [Discovery.isHidden] at h
  | cons c rest =>
    have hc : c ≠ '.' := by simpa [Discovery.isHidden] using h
    simp [hc]

/-- The stem of a lesson is what stands before its extension, unless its last name is hidden. -/
theorem pageStem_append {stem extension : Text} (hback : '\\' ∉ stem ++ '.' :: extension)
    (hslash : '/' ∉ extension) (hdot : '.' ∉ extension)
    (hvisible : ∀ part ∈ (stem ++ '.' :: extension).splitOn '/', Discovery.isHidden part = false) :
    pageStem (stem ++ '.' :: extension) = stem := by
  have hcut := cutLastSlash_append_right stem (m := '.' :: extension) (by simp [hslash])
  have hlast := hvisible _ (splitOn_cutLastSlash (stem ++ '.' :: extension)).1
  rw [hcut] at hlast
  rw [pageStem, replaceChar_of_not_mem hback, Path.dropExtension, hcut,
    nameStem_append_cons (not_all_dots hlast) hdot, Path.cutLastSlash_append]

end LessonPages
