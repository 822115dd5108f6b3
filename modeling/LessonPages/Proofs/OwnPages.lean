import Mathlib.Data.List.Nodup
import LessonPages.Proofs.DefaultPattern
import LessonPages.Proofs.Pages

/-!
# Whether every lesson has its own page

A page is overwritten in the run that made it if another page, or the index, has its place. No check
prevents this; whether it happens is told by the names of the lessons.

* `Settings.places` — where a run writes; `pages_kept` — nothing is lost if these places differ.
* `nodup_places_iff` — without backslashes, different names are different places.
* `own_pages` — when names are different; `index_page_wins` — a run in which they are not.
-/

namespace LessonPages

variable {d : Disk} {s : Settings} {lessons pages : List Text}

/-- The places that a run writes to: those of the pages, and that of the index. -/
def Settings.places (s : Settings) (d : Disk) (lessons : List Text) : List (List Text) :=
  lessons.map (s.pagePlace d) ++ [d.target s.indexPath]

/-- A lesson has a page: the file of the page, on the disk after a run, is what the lesson is
converted to, as it was read before. -/
def Settings.PageKept (s : Settings) (before after : Disk) (lesson : Text) : Prop :=
  ∃ text, before.readText (s.lessonPath lesson) = .ok text ∧
    after.read (s.pagePath lesson) = .ok (Utf8.encode (Page.ofLesson s.language text))

/-- Lessons that have been discovered and converted keep their pages while nothing else is written to
the places of these. -/
theorem Converts.page_kept {made between last : Disk} {done : List Text} {spots : List (List Text)}
    (h : Converts s made done between) (hd : made.Plain)
    (hfound : discover made s.source s.pattern s.respectIgnore = .ok lessons)
    (hsub : done ⊆ lessons) (hlast : between.Extends last spots)
    (hplaces : (done.map (s.pagePlace made)).Nodup)
    (hapart : ∀ lesson ∈ done, made.target (s.lessonPath lesson) ∉ done.map (s.pagePlace made))
    (hspots : ∀ lesson ∈ done, s.pagePlace made lesson ∉ spots) :
    ∀ lesson ∈ done, s.PageKept made last lesson := by
  intro lesson hlesson
  have hext := h.extends hd
  obtain ⟨hfolder, -, hfiles⟩ := discover_eq_ok hd hfound
  obtain ⟨text, hholds, htext⟩ := h.pages_kept hd hplaces hapart lesson hlesson
  refine ⟨text, ?_, ?_⟩
  · obtain ⟨-, content, hnode⟩ := hfiles lesson (hsub hlesson)
    exact (Disk.readText_eq_ok_iff hd).mpr
      ⟨Disk.reaches_pathBelow hd hfolder hholds.no_nul hholds.short hnode, hholds⟩
  · have hplace : between.target (s.pagePath lesson) ∉ spots := by
      rw [hext.target_eq]
      exact hspots lesson hlesson
    exact (htext.extends hlast hplace).read (hlast.plain (hext.plain hd))

/-- **A run that writes to different places, none of them a lesson's, leaves each lesson its page.** -/
theorem pages_kept (hd : d.Plain) (hrun : (run d s).result = .ok pages)
    (hlessons : discover (d.ensureFolders s.destination).1 s.source s.pattern s.respectIgnore =
      .ok lessons)
    (hplaces : (s.places d lessons).Nodup)
    (hapart : ∀ lesson ∈ lessons, d.target (s.lessonPath lesson) ∉ lessons.map (s.pagePlace d)) :
    ∀ lesson ∈ lessons, s.PageKept (d.ensureFolders s.destination).1 (run d s).disk lesson := by
  obtain ⟨found, hfound, -, converted, hconverts, hindex, -⟩ := run_eq_ok hd hrun
  obtain rfl : found = lessons := Except.ok.inj (hfound.symm.trans hlessons)
  have hfolders := Disk.ensureFolders_extends hd s.destination
  obtain ⟨hnodup, -, hnew⟩ := List.nodup_append.mp hplaces
  apply hconverts.page_kept (hfolders.plain hd) hfound (List.Subset.refl _) hindex
  · rwa [pagePlace_eq hfolders]
  · intro lesson hlesson
    rw [pagePlace_eq hfolders, hfolders.target_eq]
    exact hapart lesson hlesson
  · intro lesson hlesson
    rw [pagePlace_eq hfolders, Settings.mem_indexPlaces]
    rintro ⟨-, hplace⟩
    exact hnew _ (List.mem_map_of_mem hlesson) _ (List.mem_singleton_self _) hplace

/-! ## Names and places -/

/-- Names as a discovery gives them, without backslashes. -/
def PlainNames (lessons : List Text) : Prop :=
  ∀ lesson ∈ lessons, '\\' ∉ lesson ∧ ∀ part ∈ lesson.splitOn '/', IsStep part

theorem PlainNames.mono (h : PlainNames lessons) {fewer : List Text} (hsub : fewer ⊆ lessons) :
    PlainNames fewer := fun lesson hlesson => h lesson (hsub hlesson)

theorem plainNames_of_discover (hd : d.Plain) {root pattern : Text} {respectIgnore : Bool}
    (h : discover d root pattern respectIgnore = .ok lessons)
    (hback : ∀ lesson ∈ lessons, '\\' ∉ lesson) : PlainNames lessons := by
  obtain ⟨-, -, hfiles⟩ := discover_eq_ok hd h
  intro lesson hlesson
  refine ⟨hback lesson hlesson, ?_⟩
  intro part hpart
  exact ((hfiles lesson hlesson).1 part hpart).1.toIsStep

theorem slash_not_mem_dotted {extension : Text} (h : '/' ∉ extension) : '/' ∉ dotted extension := by
  unfold dotted
  split
  · exact h
  · simp [h]

theorem pagePlace_of_plain (hlessons : PlainNames lessons) (hextension : '/' ∉ dotted s.extension)
    {lesson : Text} (hlesson : lesson ∈ lessons) :
    s.pagePlace d lesson = d.target s.destination ++ (pageName s.extension lesson).splitOn '/' :=
  Disk.target_pathBelow_of_steps
    (isStep_of_mem_pageName (hlessons lesson hlesson).1 (hlessons lesson hlesson).2 hextension) _

/-- Names that go on from a folder differ where the places do. -/
theorem injective_append_splitOn (base : List Text) :
    Function.Injective fun name : Text => base ++ name.splitOn '/' := by
  intro a b hab
  have hsplit : a.splitOn '/' = b.splitOn '/' := List.append_cancel_left hab
  have hjoin := congrArg ['/'].intercalate hsplit
  rwa [List.intercalate_splitOn, List.intercalate_splitOn] at hjoin

/-- Without backslashes, pages have different places exactly if they have different names. -/
theorem nodup_pagePlaces_iff (hlessons : PlainNames lessons) (hextension : '/' ∉ dotted s.extension) :
    (lessons.map (s.pagePlace d)).Nodup ↔ (lessons.map (pageName s.extension)).Nodup := by
  have hplaces : lessons.map (s.pagePlace d) = (lessons.map (pageName s.extension)).map fun name =>
      d.target s.destination ++ name.splitOn '/' := by
    rw [List.map_map]
    apply List.map_congr_left
    intro lesson hlesson
    exact pagePlace_of_plain hlessons hextension hlesson
  rw [hplaces, List.nodup_map_iff (injective_append_splitOn _)]

/-- Without backslashes, the index has the place of a page only if it has the name of one. -/
theorem index_mem_of_place_mem (hlessons : PlainNames lessons)
    (hextension : '/' ∉ dotted s.extension) (hslash : '/' ∉ s.indexName)
    (h : d.target s.indexPath ∈ lessons.map (s.pagePlace d)) :
    s.indexName ∈ lessons.map (pageName s.extension) := by
  obtain ⟨lesson, hlesson, hplace⟩ := List.mem_map.mp h
  rw [pagePlace_of_plain hlessons hextension hlesson, Settings.indexPath, Disk.target_join hslash]
    at hplace
  -- only a name that makes the way longer can lead to the place of a page
  have hlonger : (d.target s.destination).reverse.length <
      (Path.follow true (d.target s.destination).reverse s.indexName).length := by
    have hlength := congrArg List.length hplace
    have hpos := List.length_pos_iff.mpr (List.splitOn_ne_nil '/' (pageName s.extension lesson))
    simp only [List.length_append, List.length_reverse] at hlength ⊢
    omega
  rw [follow_eq_cons hlonger, List.reverse_cons, List.reverse_reverse,
    ← List.splitOn_eq_singleton hslash] at hplace
  have hname : pageName s.extension lesson = s.indexName := injective_append_splitOn _ hplace
  exact hname ▸ List.mem_map_of_mem hlesson

/-- **Without backslashes, a run writes to different places exactly if the names are different.** -/
theorem nodup_places_iff (hlessons : PlainNames lessons) (hextension : '/' ∉ dotted s.extension)
    (hindex : IsStep s.indexName) (hslash : '/' ∉ s.indexName) :
    (s.places d lessons).Nodup ↔ (lessons.map (pageName s.extension)).Nodup ∧
      s.indexName ∉ lessons.map (pageName s.extension) := by
  have hmem : s.indexName ∈ lessons.map (pageName s.extension) →
      d.target s.indexPath ∈ lessons.map (s.pagePlace d) := by
    intro hmem
    obtain ⟨lesson, hlesson, hname⟩ := List.mem_map.mp hmem
    refine List.mem_map.mpr ⟨lesson, hlesson, ?_⟩
    rw [pagePlace_of_plain hlessons hextension hlesson, hname, List.splitOn_eq_singleton hslash,
      Settings.indexPath, Disk.target_join hslash, follow_step hindex, List.reverse_cons,
      List.reverse_reverse]
  rw [Settings.places, ← List.concat_eq_append, List.nodup_concat, and_comm,
    nodup_pagePlaces_iff hlessons hextension]
  exact and_congr_right' (not_congr ⟨index_mem_of_place_mem hlessons hextension hslash, hmem⟩)

/-- Without backslashes, no page is written to a place in the folder of the lessons, if the two
folders are apart. -/
theorem lesson_not_page (hlessons : PlainNames lessons) (hextension : '/' ∉ dotted s.extension)
    (hbelow : ¬ d.target s.source <+: d.target s.destination)
    (habove : ¬ d.target s.destination <+: d.target s.source) :
    ∀ lesson ∈ lessons, d.target (s.lessonPath lesson) ∉ lessons.map (s.pagePlace d) := by
  intro lesson hlesson hmem
  obtain ⟨other, hother, hplace⟩ := List.mem_map.mp hmem
  rw [pagePlace_of_plain hlessons hextension hother, Settings.lessonPath,
    Disk.target_pathBelow_of_steps (hlessons lesson hlesson).2] at hplace
  have hsource := List.prefix_append (d.target s.source) (lesson.splitOn '/')
  rw [← hplace] at hsource
  rcases List.prefix_or_prefix_of_prefix hsource (List.prefix_append _ _) with h | h
  · exact hbelow h
  · exact habove h

/-! ## When names are different -/

/-- The stem of the index. -/
def indexStem : Text := "index".toList

theorem nodup_pageNames_iff (hnodup : lessons.Nodup) (extension : Text) :
    (lessons.map (pageName extension)).Nodup ↔
      ∀ lesson ∈ lessons, ∀ other ∈ lessons, pageStem lesson = pageStem other → lesson = other := by
  rw [List.nodup_map_iff_inj_on hnodup]
  simp only [pageName_inj]

theorem index_not_mem_iff : Index.defaultName ∉ lessons.map (pageName defaultExtension) ↔
    ∀ lesson ∈ lessons, pageStem lesson ≠ indexStem := by
  have hname : Index.defaultName = indexStem ++ dotted defaultExtension := rfl
  rw [List.mem_map, not_exists]
  refine forall_congr' fun lesson => ?_
  rw [not_and, hname, pageName_eq, List.append_left_inj]

theorem pageStem_append_lessonExtension {lesson : Text} (hback : '\\' ∉ lesson)
    (hvisible : ∀ part ∈ lesson.splitOn '/', Discovery.isHidden part = false)
    (hsuffix : lessonExtension <:+ lesson) : pageStem lesson ++ lessonExtension = lesson := by
  obtain ⟨stem, rfl⟩ := hsuffix
  have hdot : lessonExtension = '.' :: "ts".toList := rfl
  rw [hdot] at hback hvisible ⊢
  rw [pageStem_append hback (by decide) (by decide) hvisible]

/-- Names are different exactly if stems are, of the lessons and of the index. -/
theorem names_differ_iff (hnodup : lessons.Nodup) (hextension : s.extension = defaultExtension)
    (hindex : s.indexName = Index.defaultName) :
    ((lessons.map (pageName s.extension)).Nodup ∧
        s.indexName ∉ lessons.map (pageName s.extension)) ↔
      (∀ lesson ∈ lessons, ∀ other ∈ lessons, pageStem lesson = pageStem other → lesson = other) ∧
        ∀ lesson ∈ lessons, pageStem lesson ≠ indexStem := by
  rw [hindex, nodup_pageNames_iff hnodup, hextension, index_not_mem_iff]

/-- Lessons with the usual extension have different stems, and at most one has that of the index. -/
theorem stems_differ_iff
    (hstem : ∀ lesson ∈ lessons, pageStem lesson ++ lessonExtension = lesson) :
    ((∀ lesson ∈ lessons, ∀ other ∈ lessons, pageStem lesson = pageStem other → lesson = other) ∧
        ∀ lesson ∈ lessons, pageStem lesson ≠ indexStem) ↔
      indexStem ++ lessonExtension ∉ lessons := by
  constructor
  · rintro ⟨-, hno⟩ hmem
    exact hno _ hmem (List.append_cancel_right (hstem _ hmem))
  · intro hno
    refine ⟨?_, ?_⟩
    · intro lesson hlesson other hother hsame
      rw [← hstem lesson hlesson, hsame, hstem other hother]
    · intro lesson hlesson hsame
      rw [← hsame, hstem lesson hlesson] at hno
      exact hno hlesson

/-- Without backslashes, a page is kept wherever names are different. -/
theorem pages_kept_of_plain (hd : d.Plain) (hrun : (run d s).result = .ok pages)
    (hlessons : discover (d.ensureFolders s.destination).1 s.source s.pattern s.respectIgnore =
      .ok lessons)
    (hplain : PlainNames lessons) (hextension : '/' ∉ dotted s.extension)
    (hindex : IsStep s.indexName) (hslash : '/' ∉ s.indexName)
    (hbelow : ¬ d.target s.source <+: d.target s.destination)
    (habove : ¬ d.target s.destination <+: d.target s.source)
    (hdistinct : (lessons.map (pageName s.extension)).Nodup)
    (hother : s.indexName ∉ lessons.map (pageName s.extension)) :
    ∀ lesson ∈ lessons, s.PageKept (d.ensureFolders s.destination).1 (run d s).disk lesson := by
  have hplaces := (nodup_places_iff (d := d) hplain hextension hindex hslash).mpr ⟨hdistinct, hother⟩
  have hapart := lesson_not_page (d := d) hplain hextension hbelow habove
  exact pages_kept hd hrun hlessons hplaces hapart

/-- **Each lesson of a run that returns keeps its page if no two have one stem and none has that of
the index; then no page has the name of another, or of the index, and otherwise one has. For lessons
with the usual extension it takes only that none is named after the index.** -/
theorem own_pages (hd : d.Plain) (hextension : s.extension = defaultExtension)
    (hindex : s.indexName = Index.defaultName)
    (hbelow : ¬ d.target s.source <+: d.target s.destination)
    (habove : ¬ d.target s.destination <+: d.target s.source)
    (hrun : (run d s).result = .ok pages) :
    ∃ lessons, discover (d.ensureFolders s.destination).1 s.source s.pattern s.respectIgnore =
        .ok lessons ∧
      pages = lessons.map (pageName s.extension) ∧
      ((pages.Nodup ∧ s.indexName ∉ pages) ↔
        (∀ lesson ∈ lessons, ∀ other ∈ lessons, pageStem lesson = pageStem other → lesson = other) ∧
          ∀ lesson ∈ lessons, pageStem lesson ≠ indexStem) ∧
      ((∀ lesson ∈ lessons, '\\' ∉ lesson ∧ lessonExtension <:+ lesson) →
        ((pages.Nodup ∧ s.indexName ∉ pages) ↔ indexStem ++ lessonExtension ∉ lessons)) ∧
      ((∀ lesson ∈ lessons, '\\' ∉ lesson) → pages.Nodup → s.indexName ∉ pages →
        ∀ lesson ∈ lessons, s.PageKept (d.ensureFolders s.destination).1 (run d s).disk lesson) ∧
      ((s.places d lessons).Nodup →
        (∀ lesson ∈ lessons, d.target (s.lessonPath lesson) ∉ lessons.map (s.pagePlace d)) →
        ∀ lesson ∈ lessons, s.PageKept (d.ensureFolders s.destination).1 (run d s).disk lesson) := by
  obtain ⟨lessons, hlessons, rfl, -⟩ := run_eq_ok hd hrun
  have hd' := (Disk.ensureFolders_extends hd s.destination).plain hd
  obtain ⟨-, hnodup, hfiles⟩ := discover_eq_ok hd' hlessons
  have hnames := names_differ_iff hnodup hextension hindex
  refine ⟨lessons, hlessons, rfl, hnames, ?_, ?_, pages_kept hd hrun hlessons⟩
  · intro husual
    rw [hnames]
    apply stems_differ_iff
    intro lesson hlesson
    obtain ⟨hback, hsuffix⟩ := husual lesson hlesson
    have hvisible : ∀ part ∈ lesson.splitOn '/', Discovery.isHidden part = false := by
      intro part hpart
      exact ((hfiles lesson hlesson).1 part hpart).2
    exact pageStem_append_lessonExtension hback hvisible hsuffix
  · intro hback hdistinct hother
    have hplain := plainNames_of_discover hd' hlessons hback
    have hslash : '/' ∉ dotted s.extension := by rw [hextension]; decide
    have hstep : IsStep s.indexName := by rw [hindex]; exact ⟨by decide, by decide, by decide⟩
    have hname : '/' ∉ s.indexName := by rw [hindex]; decide
    exact pages_kept_of_plain hd hrun hlessons hplain hslash hstep hname hbelow habove hdistinct
      hother

/-- A disk with one lesson in the folder `/T/src`. -/
def oneLesson (name content : Text) : Disk :=
  ⟨.folder "T".toList (.folder "src".toList (.file name (Utf8.encode content) .empty) .empty) .empty,
    ["T".toList]⟩

/-- The settings for lessons in `/T/src` and pages in `/T/out`. -/
def usualRoots : Settings := { source := "/T/src".toList, destination := "/T/out".toList }

theorem plain_oneLesson {name : Text} (hname : IsName name) (content : Text) :
    (oneLesson name content).Plain := by
  have htop : IsName "T".toList := by decide
  have hsrc : IsName "src".toList := by decide
  refine ⟨?_, ?_, ?_⟩
  · exact ⟨htop, List.not_mem_nil, trivial, hsrc, List.not_mem_nil, trivial, hname,
      List.not_mem_nil, trivial⟩
  · exact ⟨⟨trivial, trivial⟩, trivial⟩
  · intro n hn
    rwa [List.mem_singleton.mp hn]

theorem own_pages_oneLesson :
    usualRoots.PageKept ((oneLesson "a.ts".toList "x\n".toList).ensureFolders "/T/out".toList).1
      (run (oneLesson "a.ts".toList "x\n".toList) usualRoots).disk "a.ts".toList := by
  have hname : IsName "a.ts".toList := by decide
  have hrun : (run (oneLesson "a.ts".toList "x\n".toList) usualRoots).result =
      .ok ["a.md".toList] := by decide +kernel
  have hfound : discover ((oneLesson "a.ts".toList "x\n".toList).ensureFolders "/T/out".toList).1
      "/T/src".toList Discovery.defaultPattern true = .ok ["a.ts".toList] := by decide +kernel
  obtain ⟨lessons, hlessons, -, -, -, hkept, -⟩ := own_pages (plain_oneLesson hname "x\n".toList)
    rfl rfl (by decide) (by decide) hrun
  obtain rfl : ["a.ts".toList] = lessons := Except.ok.inj (hfound.symm.trans hlessons)
  exact hkept (by decide) (by decide) (by decide) _ List.mem_cons_self

/-- **A lesson named after the index has no page: the index takes its place.** -/
theorem index_page_wins :
    (oneLesson "index.ts".toList "x\n".toList).Plain ∧
      (run (oneLesson "index.ts".toList "x\n".toList) usualRoots).result =
        .ok [usualRoots.indexName] ∧
      (run (oneLesson "index.ts".toList "x\n".toList) usualRoots).disk.read
          "/T/out/index.md".toList =
        .ok (Utf8.encode (Index.page [usualRoots.indexName])) ∧
      ¬ usualRoots.PageKept
        ((oneLesson "index.ts".toList "x\n".toList).ensureFolders "/T/out".toList).1
        (run (oneLesson "index.ts".toList "x\n".toList) usualRoots).disk "index.ts".toList := by
  have hname : IsName "index.ts".toList := by decide
  refine ⟨plain_oneLesson hname _, by decide +kernel, by decide +kernel, ?_⟩
  rintro ⟨text, hread, hpage⟩
  have htext : ((oneLesson "index.ts".toList "x\n".toList).ensureFolders "/T/out".toList).1.readText
      (usualRoots.lessonPath "index.ts".toList) = .ok "x\n".toList := by decide +kernel
  obtain rfl : "x\n".toList = text := Except.ok.inj (htext.symm.trans hread)
  exact absurd hpage (by decide +kernel)

end LessonPages
