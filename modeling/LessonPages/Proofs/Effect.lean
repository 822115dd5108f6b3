import LessonPages.Proofs.OwnPages

/-!
# What a run leaves behind

A run changes the files of its pages and of its index, and no others. If it returns, all of them say
what they should; if it fails, those of the lessons before the one that failed do.

* `Settings.Apart` — the folders of the lessons and of the pages are apart.
* `Converts.file_iff` — the files that lessons leave as they were.
* `run_effect` — a run that returns; `failed_run_effect` — a run that fails.
* `index_page_without_index` — the page of a lesson that is named after the index.
-/

namespace LessonPages

variable {d between last : Disk} {s : Settings} {lessons done pages : List Text}
  {failure : Failure}

/-- The folders of the lessons and of the pages are apart, and the names that a run adds to are single
ones. -/
structure Settings.Apart (s : Settings) (d : Disk) : Prop where
  extension : '/' ∉ s.extension
  indexName : '/' ∉ s.indexName
  below : ¬ d.target s.source <+: d.target s.destination
  above : ¬ d.target s.destination <+: d.target s.source

/-- A file is there before exactly if it is there afterwards, with the same bytes. -/
def Disk.SameFile (d d' : Disk) (q : List Text) : Prop :=
  ∀ content, d'.root.node? q = some (.file content) ↔ d.root.node? q = some (.file content)

/-- **Lessons that are converted leave all files alone but their pages and what is written later.** -/
theorem Converts.file_iff {spots : List (List Text)} (hd : d.Plain)
    (h : Converts s (d.ensureFolders s.destination).1 done between)
    (hlast : between.Plain → between.Extends last spots) {q : List Text}
    (hpages : q ∉ done.map (s.pagePlace d)) (hspots : q ∉ spots) : d.SameFile last q := by
  have hfolders := Disk.ensureFolders_extends hd s.destination
  have hext := h.extends (hfolders.plain hd)
  intro content
  rw [(hlast (hext.plain (hfolders.plain hd))).file_iff hspots,
    hext.file_iff (by rwa [pagePlace_eq hfolders]), hfolders.file_iff List.not_mem_nil]

/-- Lessons of a run have their pages, if only the index is written after them. -/
theorem Converts.pages_kept_of_apart {spots : List (List Text)} (hd : d.Plain) (hs : s.Apart d)
    (h : Converts s (d.ensureFolders s.destination).1 done between)
    (hfound : discover (d.ensureFolders s.destination).1 s.source s.pattern s.respectIgnore =
      .ok lessons)
    (hsub : done.Sublist lessons) (hback : ∀ lesson ∈ lessons, '\\' ∉ lesson)
    (hdistinct : (lessons.map (pageName s.extension)).Nodup)
    (hlast : between.Plain → between.Extends last spots)
    (hspots : ∀ lesson ∈ done, s.pagePlace d lesson ∉ spots) :
    ∀ lesson ∈ done, s.PageKept (d.ensureFolders s.destination).1 last lesson := by
  have hfolders := Disk.ensureFolders_extends hd s.destination
  have hd' := hfolders.plain hd
  have hplain := (plainNames_of_discover hd' hfound hback).mono hsub.subset
  have hslash := slash_not_mem_dotted hs.extension
  apply h.page_kept hd' hfound hsub.subset (hlast ((h.extends hd').plain hd'))
  · rw [pagePlace_eq hfolders]
    exact (nodup_pagePlaces_iff hplain hslash).mpr (hdistinct.sublist (hsub.map _))
  · intro lesson hlesson
    rw [pagePlace_eq hfolders, hfolders.target_eq]
    exact lesson_not_page hplain hslash hs.below hs.above lesson hlesson
  · rwa [pagePlace_eq hfolders]

/-- **A run that returns gives the pages of all lessons it has found, in their order. Each page is what
its lesson is converted to, the index lists all pages, and no other file is changed.** -/
theorem run_effect (hd : d.Plain) (hs : s.Apart d) (hrun : (run d s).result = .ok pages)
    (hback : ∀ lessons,
      discover (d.ensureFolders s.destination).1 s.source s.pattern s.respectIgnore = .ok lessons →
        ∀ lesson ∈ lessons, '\\' ∉ lesson)
    (hdistinct : pages.Nodup) (hother : s.writeIndex = true → s.indexName ∉ pages) :
    ∃ lessons,
      discover (d.ensureFolders s.destination).1 s.source s.pattern s.respectIgnore = .ok lessons ∧
      pages = lessons.map (pageName s.extension) ∧
      (∀ lesson ∈ lessons, s.PageKept (d.ensureFolders s.destination).1 (run d s).disk lesson) ∧
      (s.writeIndex = true →
        (run d s).disk.read s.indexPath = .ok (Utf8.encode (Index.page pages))) ∧
      (s.writeIndex = false → s.indexName ∉ pages →
        d.SameFile (run d s).disk (d.target s.indexPath)) ∧
      ∀ q, q ∉ lessons.map (s.pagePlace d) → (s.writeIndex = true → q ≠ d.target s.indexPath) →
        d.SameFile (run d s).disk q := by
  obtain ⟨lessons, hfound, rfl, between, hdone, hlast, hindex⟩ := run_eq_ok hd hrun
  have hd' := (Disk.ensureFolders_extends hd s.destination).plain hd
  have hback := hback lessons hfound
  have hplace : s.indexName ∉ lessons.map (pageName s.extension) →
      d.target s.indexPath ∉ lessons.map (s.pagePlace d) := by
    intro hname hmem
    exact hname (index_mem_of_place_mem (plainNames_of_discover hd' hfound hback)
      (slash_not_mem_dotted hs.extension) hs.indexName hmem)
  have hspots : ∀ lesson ∈ lessons, s.pagePlace d lesson ∉ s.indexPlaces d := by
    intro lesson hlesson hmem
    obtain ⟨hwanted, hsame⟩ := Settings.mem_indexPlaces.mp hmem
    exact hplace (hother hwanted) (hsame ▸ List.mem_map_of_mem hlesson)
  refine ⟨lessons, hfound, rfl, ?_, ?_, ?_, ?_⟩
  · exact hdone.pages_kept_of_apart hd hs hfound (List.Sublist.refl _) hback hdistinct
      (fun _ => hlast) hspots
  · intro hwanted
    exact (hindex hwanted).read (hlast.plain ((hdone.extends hd').plain hd'))
  · intro hunwanted hname
    apply hdone.file_iff hd (fun _ => hlast) (hplace hname)
    simp [Settings.mem_indexPlaces, hunwanted]
  · intro q hq hne
    apply hdone.file_iff hd (fun _ => hlast) hq
    rw [Settings.mem_indexPlaces]
    exact fun hmem => hne hmem.1 hmem.2

theorem run_effect_oneLesson :
    usualRoots.PageKept ((oneLesson "a.ts".toList "x\n".toList).ensureFolders "/T/out".toList).1
        (run (oneLesson "a.ts".toList "x\n".toList) usualRoots).disk "a.ts".toList ∧
      (run (oneLesson "a.ts".toList "x\n".toList) usualRoots).disk.read "/T/out/index.md".toList =
        .ok (Utf8.encode (Index.page ["a.md".toList])) ∧
      (oneLesson "a.ts".toList "x\n".toList).SameFile
        (run (oneLesson "a.ts".toList "x\n".toList) usualRoots).disk
        ["T".toList, "src".toList, "a.ts".toList] := by
  have hname : IsName "a.ts".toList := by decide
  have hrun : (run (oneLesson "a.ts".toList "x\n".toList) usualRoots).result =
      .ok ["a.md".toList] := by decide +kernel
  have hfound : discover ((oneLesson "a.ts".toList "x\n".toList).ensureFolders
      usualRoots.destination).1 usualRoots.source usualRoots.pattern usualRoots.respectIgnore =
        .ok ["a.ts".toList] := by decide +kernel
  have hback : ∀ lessons, discover ((oneLesson "a.ts".toList "x\n".toList).ensureFolders
      usualRoots.destination).1 usualRoots.source usualRoots.pattern usualRoots.respectIgnore =
        .ok lessons → ∀ lesson ∈ lessons, '\\' ∉ lesson := by
    intro lessons hlessons
    obtain rfl : ["a.ts".toList] = lessons := Except.ok.inj (hfound.symm.trans hlessons)
    decide
  obtain ⟨lessons, hlessons, -, hkept, hindex, -, hsame⟩ :=
    run_effect (plain_oneLesson hname _) ⟨by decide, by decide, by decide, by decide⟩ hrun hback
      (by decide) (by decide)
  obtain rfl : ["a.ts".toList] = lessons := Except.ok.inj (hfound.symm.trans hlessons)
  exact ⟨hkept _ List.mem_cons_self, hindex rfl, hsame _ (by decide) (by decide)⟩

/-- The settings for lessons in `/T/src` and pages in `/T/out`, without an index. -/
def usualRootsNoIndex : Settings := { usualRoots with writeIndex := false }

/-- **Without an index, a lesson named after it puts its page where the index would be.** -/
theorem index_page_without_index :
    (oneLesson "index.ts".toList "x\n".toList).Plain ∧
      usualRootsNoIndex.Apart (oneLesson "index.ts".toList "x\n".toList) ∧
      usualRootsNoIndex.writeIndex = false ∧
      discover ((oneLesson "index.ts".toList "x\n".toList).ensureFolders
          usualRootsNoIndex.destination).1 usualRootsNoIndex.source usualRootsNoIndex.pattern
          usualRootsNoIndex.respectIgnore = .ok ["index.ts".toList] ∧
      (run (oneLesson "index.ts".toList "x\n".toList) usualRootsNoIndex).result =
        .ok ["index.md".toList] ∧
      ¬ (oneLesson "index.ts".toList "x\n".toList).SameFile
        (run (oneLesson "index.ts".toList "x\n".toList) usualRootsNoIndex).disk
        ((oneLesson "index.ts".toList "x\n".toList).target usualRootsNoIndex.indexPath) := by
  have hname : IsName "index.ts".toList := by decide
  refine ⟨plain_oneLesson hname _, ⟨by decide, by decide, by decide, by decide⟩, rfl,
    by decide +kernel, by decide +kernel, ?_⟩
  intro hsame
  have hpage : (run (oneLesson "index.ts".toList "x\n".toList) usualRootsNoIndex).disk.root.node?
      ((oneLesson "index.ts".toList "x\n".toList).target usualRootsNoIndex.indexPath) =
        some (.file (Utf8.encode (Page.ofLesson usualRoots.language "x\n".toList))) := by
    decide +kernel
  have hbefore := (hsame _).mp hpage
  revert hbefore
  decide +kernel

/-- **A run that fails has converted the lessons before the one that failed, and changed no other file:
no page of a later lesson, no index and no lesson.** -/
theorem failed_run_effect (hd : d.Plain) (hs : s.Apart d) (hrun : (run d s).result = .error failure)
    (hnames : ∀ lessons,
      discover (d.ensureFolders s.destination).1 s.source s.pattern s.respectIgnore = .ok lessons →
        (∀ lesson ∈ lessons, '\\' ∉ lesson) ∧ (lessons.map (pageName s.extension)).Nodup ∧
          s.indexName ∉ lessons.map (pageName s.extension)) :
    ∃ done, Course d s done (run d s).disk (.error failure) ∧
      (∀ lesson ∈ done, s.PageKept (d.ensureFolders s.destination).1 (run d s).disk lesson) ∧
      (∀ q, q ∉ done.map (s.pagePlace d) → d.SameFile (run d s).disk q) ∧
      d.SameFile (run d s).disk (d.target s.indexPath) ∧
      ∀ lessons,
        discover (d.ensureFolders s.destination).1 s.source s.pattern s.respectIgnore = .ok lessons →
          (∀ lesson ∈ lessons, d.SameFile (run d s).disk (d.target (s.lessonPath lesson))) ∧
          ∃ later, lessons = done ++ later ∧
            ∀ lesson ∈ later, d.SameFile (run d s).disk (s.pagePlace d lesson) := by
  obtain ⟨done, hcourse⟩ := run_course d s
  rw [hrun] at hcourse
  obtain ⟨between, hdone, hlast, hfound⟩ := hcourse.of_error
  have hsame : ∀ q, q ∉ done.map (s.pagePlace d) → d.SameFile (run d s).disk q := by
    intro q hq
    exact hdone.file_iff hd hlast hq List.not_mem_nil
  obtain rfl | ⟨later, hfound⟩ := hfound
  · -- no lesson has been converted, and no file has been changed
    have hall : ∀ q, d.SameFile (run d s).disk q := fun q => hsame q List.not_mem_nil
    refine ⟨[], hcourse, by simp, hsame, hall _, ?_⟩
    intro lessons _
    exact ⟨fun _ _ => hall _, lessons, rfl, fun _ _ => hall _⟩
  · obtain ⟨hback, hdistinct, hother⟩ := hnames _ hfound
    have hslash := slash_not_mem_dotted hs.extension
    have hplain := plainNames_of_discover
      ((Disk.ensureFolders_extends hd s.destination).plain hd) hfound hback
    have hsub : done.map (s.pagePlace d) ⊆ (done ++ later).map (s.pagePlace d) :=
      List.map_subset _ (List.subset_append_left _ _)
    have hplaces := (nodup_pagePlaces_iff (d := d) hplain hslash).mpr hdistinct
    rw [List.map_append, List.nodup_append] at hplaces
    refine ⟨done, hcourse, ?_, hsame, ?_, ?_⟩
    · exact hdone.pages_kept_of_apart hd hs hfound (List.sublist_append_left _ _) hback hdistinct hlast
        fun _ _ => List.not_mem_nil
    · apply hsame
      intro hmem
      exact hother (index_mem_of_place_mem hplain hslash hs.indexName (hsub hmem))
    · intro lessons hlessons
      obtain rfl : done ++ later = lessons := Except.ok.inj (hfound.symm.trans hlessons)
      refine ⟨?_, later, rfl, ?_⟩
      · intro lesson hlesson
        apply hsame
        intro hmem
        exact lesson_not_page hplain hslash hs.below hs.above lesson hlesson (hsub hmem)
      · intro lesson hlesson
        apply hsame
        intro hmem
        exact hplaces.2.2 _ hmem _ (List.mem_map_of_mem hlesson) rfl

/-- A disk with two lessons in the folder `/T/src`; the second one is no text. -/
def brokenLesson : Disk :=
  ⟨.folder "T".toList (.folder "src".toList
    (.file "a.ts".toList (Utf8.encode "x\n".toList) (.file "b.ts".toList [0xFF] .empty)) .empty) .empty,
    ["T".toList]⟩

theorem failed_run_effect_brokenLesson :
    ∃ failure, Course brokenLesson usualRoots ["a.ts".toList] (run brokenLesson usualRoots).disk
        (.error failure) ∧
      usualRoots.PageKept (brokenLesson.ensureFolders usualRoots.destination).1
        (run brokenLesson usualRoots).disk "a.ts".toList ∧
      brokenLesson.SameFile (run brokenLesson usualRoots).disk
        (usualRoots.pagePlace brokenLesson "b.ts".toList) ∧
      brokenLesson.SameFile (run brokenLesson usualRoots).disk
        (brokenLesson.target usualRoots.indexPath) := by
  have hrun : ∃ failure, (run brokenLesson usualRoots).result = .error failure := by
    cases hresult : (run brokenLesson usualRoots).result with
    | error failure => exact ⟨failure, rfl⟩
    | ok pages =>
      have hfails : (run brokenLesson usualRoots).result.isOk = false := by decide +kernel
      rw [hresult] at hfails
      cases hfails
  have hfound : discover (brokenLesson.ensureFolders usualRoots.destination).1 usualRoots.source
      usualRoots.pattern usualRoots.respectIgnore = .ok ["a.ts".toList, "b.ts".toList] := by
    decide +kernel
  have hnames : ∀ lessons, discover (brokenLesson.ensureFolders usualRoots.destination).1
      usualRoots.source usualRoots.pattern usualRoots.respectIgnore = .ok lessons →
        (∀ lesson ∈ lessons, '\\' ∉ lesson) ∧
          (lessons.map (pageName usualRoots.extension)).Nodup ∧
          usualRoots.indexName ∉ lessons.map (pageName usualRoots.extension) := by
    intro lessons hlessons
    obtain rfl : ["a.ts".toList, "b.ts".toList] = lessons :=
      Except.ok.inj (hfound.symm.trans hlessons)
    exact ⟨by decide, by decide, by decide⟩
  have hfirst : ¬ brokenLesson.SameFile (run brokenLesson usualRoots).disk
      (usualRoots.pagePlace brokenLesson "a.ts".toList) := by
    intro hsame
    have hbefore := (hsame (Utf8.encode (Page.ofLesson usualRoots.language "x\n".toList))).mp
      (by decide +kernel)
    revert hbefore
    decide +kernel
  have hsecond : ((run brokenLesson usualRoots).disk.read (usualRoots.pagePath "b.ts".toList)).isOk =
      false := by decide +kernel
  obtain ⟨failure, hrun⟩ := hrun
  obtain ⟨done, hcourse, hkept, -, hindex, hlessons⟩ := failed_run_effect
    ⟨by decide, by decide, by decide⟩ ⟨by decide, by decide, by decide, by decide⟩ hrun hnames
  obtain ⟨-, later, hdone, hlater⟩ := hlessons _ hfound
  match done, hdone with
  | [], hdone =>
    obtain rfl : ["a.ts".toList, "b.ts".toList] = later := hdone
    exact (hfirst (hlater _ List.mem_cons_self)).elim
  | [_], hdone =>
    obtain ⟨rfl, rfl⟩ := List.cons.inj hdone
    exact ⟨failure, hcourse, hkept _ List.mem_cons_self, hlater _ List.mem_cons_self, hindex⟩
  | _ :: _ :: _, hdone =>
    obtain ⟨-, hrest⟩ := List.cons.inj hdone
    obtain ⟨rfl, -⟩ := List.cons.inj hrest
    obtain ⟨text, -, hread⟩ := hkept "b.ts".toList (by simp)
    rw [hread] at hsecond
    cases hsecond

end LessonPages
