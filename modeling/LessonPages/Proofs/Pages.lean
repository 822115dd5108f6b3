import LessonPages.Proofs.Course
import LessonPages.Proofs.Findings
import LessonPages.Proofs.PageNames

/-!
# The pages of a run

A run writes at the places of its pages and of its index. As long as these are places of their own,
each page stays what its lesson was converted to.

* `Disk.HoldsLesson` — what a lesson's file says.
* `Converts.extends`, `Converts.pages_kept` — what becomes of lessons that are converted.
* `run_eq_ok` — the parts of a run that returns.
-/

namespace LessonPages

variable {d d' d'' : Disk} {s : Settings} {lesson : Text} {lessons pages : List Text}

/-- The path of a lesson. -/
def Settings.lessonPath (s : Settings) (lesson : Text) : Text := pathBelow s.source lesson

/-! ## Lessons -/

namespace Disk

variable {path text : Text} {spots : List (List Text)}

/-- A path can be asked for, and the file at its target has a text. -/
structure HoldsLesson (d : Disk) (path text : Text) : Prop where
  no_nul : hasNul path = false
  short : isLongPath path = false
  content : ∃ bytes raw, d.root.node? (d.target path) = some (.file bytes) ∧
    Utf8.decode bytes = .ok raw ∧ raw.unifyNewlines = text

theorem readText_eq_ok_iff (hd : d.Plain) :
    d.readText path = .ok text ↔ d.Reaches path ∧ d.HoldsLesson path text := by
  unfold readText
  constructor
  · intro h
    split at h
    · cases h
    · rename_i bytes hread
      obtain ⟨hreaches, hnode⟩ := (read_eq_ok_iff hd).mp hread
      split at h
      · cases h
      · rename_i raw hdecode
        cases h
        obtain ⟨hnul, dir, name, hleads, hshort⟩ := hreaches
        exact ⟨⟨hnul, dir, name, hleads, hshort⟩, hnul, hleads.short, bytes, raw, hnode, hdecode, rfl⟩
  · rintro ⟨hreaches, -, -, bytes, raw, hnode, hdecode, rfl⟩
    rw [(read_eq_ok_iff hd).mpr ⟨hreaches, hnode⟩]
    simp only [hdecode]

/-- A lesson that nothing has been written to was there before. -/
theorem HoldsLesson.before (h : d'.HoldsLesson path text) (hext : d.Extends d' spots)
    (hspot : d.target path ∉ spots) : d.HoldsLesson path text := by
  obtain ⟨hnul, hshort, bytes, raw, hnode, hdecode, htext⟩ := h
  rw [hext.target_eq] at hnode
  exact ⟨hnul, hshort, bytes, raw, (hext.file_iff hspot).mp hnode, hdecode, htext⟩

end Disk

/-! ## Lesson after lesson -/

/-- The place of a page. -/
def Settings.pagePlace (s : Settings) (d : Disk) (lesson : Text) : List Text :=
  d.target (s.pagePath lesson)

theorem pagePlace_eq {spots : List (List Text)} (hext : d.Extends d' spots) :
    s.pagePlace d' = s.pagePlace d :=
  funext fun _ => hext.target_eq _

/-- **Lessons that are converted change their pages and nothing else.** -/
theorem Converts.extends (h : Converts s d lessons d') (hd : d.Plain) :
    d.Extends d' (lessons.map (s.pagePlace d)) := by
  induction h with
  | done => exact .refl _ _
  | @next d d' d'' lesson page rest hconvert _ ih =>
    obtain ⟨-, hext, -⟩ := convertFile_ok hd hconvert
    have hrest := ih (hext.plain hd)
    rw [pagePlace_eq hext] at hrest
    exact (hext.mono (by simp [Settings.pagePlace])).trans (hrest.mono (by simp))

/-- **Each page stays what its lesson was converted to, if every place is written to once and no
lesson is.** -/
theorem Converts.pages_kept (h : Converts s d lessons d') (hd : d.Plain)
    (hplaces : (lessons.map (s.pagePlace d)).Nodup)
    (hlessons : ∀ lesson ∈ lessons, d.target (s.lessonPath lesson) ∉ lessons.map (s.pagePlace d)) :
    ∀ lesson ∈ lessons, ∃ text, d.HoldsLesson (s.lessonPath lesson) text ∧
      d'.HasText (s.pagePath lesson) (Page.ofLesson s.language text) := by
  induction h with
  | done =>
    intro lesson hlesson
    cases hlesson
  | @next d d' d'' lesson page rest hconvert hlater ih =>
    obtain ⟨-, hext, text, hread, htext⟩ := convertFile_ok hd hconvert
    have hd' := hext.plain hd
    have hsame := pagePlace_eq (s := s) hext
    have hrest := hlater.extends hd'
    have hothers : ∀ l ∈ rest, d.target (s.lessonPath l) ∉ [s.pagePlace d lesson] ∧
        d'.target (s.lessonPath l) ∉ rest.map (s.pagePlace d') := by
      intro l hl
      have hl := hlessons l (List.mem_cons_of_mem _ hl)
      rw [List.map_cons, List.mem_cons, not_or] at hl
      rw [hsame, hext.target_eq, List.mem_singleton]
      exact hl
    rw [List.map_cons, List.nodup_cons] at hplaces
    rintro other (_ | ⟨_, hother⟩)
    · -- the first page is written now, and no later one has its place
      refine ⟨text, ((Disk.readText_eq_ok_iff hd).mp hread).2, htext.extends hrest ?_⟩
      rw [hsame, hext.target_eq]
      exact hplaces.1
    · -- a later lesson is read behind the first page, which has not touched it
      obtain ⟨text', hholds, htext'⟩ :=
        ih hd' (hsame ▸ hplaces.2) (fun l hl => (hothers l hl).2) other hother
      exact ⟨text', hholds.before hext (hothers other hother).1, htext'⟩

/-! ## A whole run -/

/-- The place of the index, if one is written. -/
def Settings.indexPlaces (s : Settings) (d : Disk) : List (List Text) :=
  if s.writeIndex then [d.target s.indexPath] else []

theorem Settings.mem_indexPlaces {q : List Text} :
    q ∈ s.indexPlaces d ↔ s.writeIndex = true ∧ q = d.target s.indexPath := by
  unfold indexPlaces
  split <;> simp [*]

theorem indexPlaces_eq {spots : List (List Text)} (hext : d.Extends d' spots) :
    s.indexPlaces d' = s.indexPlaces d := by
  rw [Settings.indexPlaces, Settings.indexPlaces, hext.target_eq]

/-- Behind the lessons nothing is written but the index. -/
theorem Settings.Indexes.extends {between last : Disk} (h : s.Indexes pages between last)
    (hd : between.Plain) : between.Extends last (s.indexPlaces between) ∧
      (s.writeIndex = true → last.HasText s.indexPath (Index.page pages)) := by
  unfold Settings.Indexes at h
  unfold Settings.indexPlaces
  split at h
  · rename_i hwanted
    obtain ⟨path, hindex⟩ := h
    obtain ⟨-, hlast, htext⟩ := generateIndex_ok hd hindex
    rw [if_pos hwanted]
    exact ⟨hlast, fun _ => htext⟩
  · rename_i hunwanted
    rw [if_neg hunwanted, h]
    exact ⟨.refl _ _, fun hwanted => (hunwanted hwanted).elim⟩

/-- **A run that returns has made the folder of its pages, found its lessons, converted all of them,
and then written nothing but the index.** -/
theorem run_eq_ok (hd : d.Plain) (h : (run d s).result = .ok pages) :
    ∃ lessons, discover (d.ensureFolders s.destination).1 s.source s.pattern s.respectIgnore =
        .ok lessons ∧
      pages = lessons.map (pageName s.extension) ∧ ∃ converted,
        Converts s (d.ensureFolders s.destination).1 lessons converted ∧
        converted.Extends (run d s).disk (s.indexPlaces d) ∧
        (s.writeIndex = true → (run d s).disk.HasText s.indexPath (Index.page pages)) := by
  obtain ⟨lessons, hcourse⟩ := run_course d s
  rw [h] at hcourse
  obtain ⟨converted, -, hfound, hpages, hconverts, hindex⟩ := Course.ok_iff.mp hcourse
  have hfolders := Disk.ensureFolders_extends hd s.destination
  have hext := hconverts.extends (hfolders.plain hd)
  have hlast := hindex.extends (hext.plain (hfolders.plain hd))
  rw [indexPlaces_eq hext, indexPlaces_eq hfolders] at hlast
  exact ⟨lessons, hfound, hpages, converted, hconverts, hlast⟩

end LessonPages
