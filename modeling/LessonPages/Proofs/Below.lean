import LessonPages.Proofs.OwnPages

/-!
# Where a run writes

The name of a page is made from the name of a lesson, which may hold backslashes; they become
slashes, and two dots between them lead up. Unless such a name leads out of the folder of the pages, a
run writes nowhere else.

* `Disk.WritesAt.below` — a name that does not climb is written below the folder it starts from.
* `not_climbs_pageName` — without backslashes, no page's name climbs.
* `run_writes_below` — where the files are that a run makes or changes.
* `run_writes_outside` — a run that writes beside the folder of its pages.
-/

namespace LessonPages

variable {d : Disk} {s : Settings}

/-- No link stands in the folder that a path leads to, on a disk as it was before. -/
def Disk.NoLinksAt (before after : Disk) (path : Text) : Prop :=
  ∀ place, after.locate .look path = .ok place →
    ∀ names target, before.root.node? (place.names ++ names) ≠ some (.link target)

/-- A place is below the folder that a path leads to. -/
def Disk.Below (d : Disk) (path : Text) (q : List Text) : Prop :=
  ∃ place names, d.locate .look path = .ok place ∧ names ≠ [] ∧ q = place.names ++ names

/-- A file is written only where the path ends in a name that leads on. -/
theorem Disk.WritesAt.getLast?_isStep {p : Text} {parts q : List Text}
    (h : d.WritesAt (Path.joinAll p parts) q) (hslash : ∀ part ∈ parts, '/' ∉ part)
    (hne : parts ≠ []) : ∃ n, parts.getLast? = some n ∧ IsStep n := by
  obtain ⟨dir, name, hplace, -⟩ := h
  have hlast := (Disk.locate_eq_ok_iff_routed.mp hplace).route.getLast?_isStep rfl
  rwa [getLast?_splitOn_joinAll hslash hne] at hlast

/-- **What is written by a name that does not climb is below the folder that the name starts from.** -/
theorem Disk.WritesAt.below {p : Text} {parts q : List Text}
    (h : d.WritesAt (Path.joinAll p parts) q) (hp : p ≠ []) (hslash : ∀ part ∈ parts, '/' ∉ part)
    (hne : parts ≠ []) (hclimbs : ¬ Climbs 0 parts) (hlinks : d.NoLinksAt d p) : d.Below p q := by
  obtain ⟨last, hlast, hstep⟩ := h.getLast?_isStep hslash hne
  have hsolid : solidParts parts ≠ [] := by
    rw [Ne, solidParts_eq_nil_iff, List.all_eq_true]
    intro hall
    exact hstep.ne_nil (by simpa using hall last (List.mem_of_getLast? hlast))
  obtain ⟨dir, name, hplace, rfl⟩ := h
  have hrouted := Disk.locate_eq_ok_iff_routed.mp hplace
  have hstart := Disk.startNames_joinAll (d := d) hslash p
  -- the path goes through the folder that it starts from, and on from there by the parts
  obtain ⟨place, fewer, rest, hfolder, -, hrest, hroute⟩ :=
    hrouted.route.through hrouted.start (solidParts_joinAll hslash p) hsolid
  rw [hstart] at hfolder
  have hlook : d.locate .look p = .ok place := Disk.locate_eq_ok_iff_routed.mpr
    ⟨hp, Disk.isLongPath_joinAll hslash hrouted.short, hstart ▸ hrouted.start, hfolder⟩
  have hstays : ¬ Climbs 0 rest := by
    rwa [← climbs_solidParts, hrest, climbs_solidParts]
  obtain ⟨names, hnames, hq⟩ :=
    hroute.stays_below (List.append_nil _).symm (hlinks place hlook) hstays rfl
  exact ⟨place, names, hlook, hnames, hq⟩

/-- Without backslashes, the name of a page does not climb. -/
theorem not_climbs_pageName {lesson extension : Text} (hback : '\\' ∉ lesson)
    (hparts : ∀ part ∈ lesson.splitOn '/', IsStep part) (hextension : '/' ∉ extension) :
    ¬ Climbs 0 ((pageName extension lesson).splitOn '/') := by
  apply not_climbs_of_steps
  intro part hpart
  exact (isStep_of_mem_pageName hback hparts (slash_not_mem_dotted hextension) part hpart).ne_up

/-- At the empty path a run ends at once. -/
theorem run_disk_of_nil (h : s.destination = []) : (run d s).disk = d := by
  rw [run, h, Disk.ensureFolders_nil]
  rfl

/-- **A run makes or changes files only below the folder of its pages, unless a lesson with a backslash
in its name has a page whose name climbs out of it.** -/
theorem run_writes_below (hd : d.WellFormed) (hextension : '/' ∉ s.extension)
    (hindex : '/' ∉ s.indexName)
    (hlessons : ∀ lessons,
      discover (d.ensureFolders s.destination).1 s.source s.pattern s.respectIgnore = .ok lessons →
        ∀ lesson ∈ lessons, '\\' ∈ lesson →
          ¬ Climbs 0 ((pageName s.extension lesson).splitOn '/'))
    (hlinks : d.NoLinksAt (run d s).disk s.destination) {q : List Text}
    (hq : (run d s).disk.root.node? q ≠ d.root.node? q) :
    (d.root.node? q = none ∧ (run d s).disk.root.node? q = some .folder) ∨
      ((run d s).disk.Below s.destination q ∧
        ∃ content, (run d s).disk.root.node? q = some (.file content)) := by
  have hgrows := run_grows d s
  have hproper := ((Disk.ensureFolders_grows d s.destination fun _ => False).wellFormed hd).proper
  -- a run adds no link, so there is none in the folder of the pages afterwards either
  have hlast : (run d s).disk.NoLinksAt (run d s).disk s.destination := by
    intro place hplace names target hlink
    exact hlinks place hplace names target ((hgrows.link_iff _ _).mp hlink)
  rcases hgrows.node? q with hsame | hnew | ⟨⟨path, hwrites, hat⟩, -, -, hfile⟩
  · exact (hq hsame).elim
  · exact .inl hnew
  · by_cases hp : s.destination = []
    · rw [run_disk_of_nil hp] at hq
      exact (hq rfl).elim
    · refine .inr ⟨?_, hfile⟩
      cases hwrites with
      | index =>
        have hat : (run d s).disk.WritesAt (Path.joinAll s.destination [s.indexName]) q := hat
        have hslash : ∀ part ∈ [s.indexName], '/' ∉ part := by simpa using hindex
        obtain ⟨last, hlast', hstep⟩ := hat.getLast?_isStep hslash (List.cons_ne_nil _ _)
        obtain rfl : s.indexName = last := by simpa using hlast'
        refine hat.below hp hslash (List.cons_ne_nil _ _) (not_climbs_of_steps ?_ 0) hlast
        simpa using hstep.ne_up
      | @page lessons lesson hfound hlesson =>
        refine hat.below hp (fun part hpart => (mem_splitOn hpart).1) (List.splitOn_ne_nil _ _) ?_ hlast
        by_cases hback : '\\' ∈ lesson
        · exact hlessons lessons hfound lesson hlesson hback
        · refine not_climbs_pageName hback ?_ hextension
          intro part hpart
          exact (discover_names hproper hfound lesson hlesson part hpart).1.toIsStep

theorem run_writes_below_oneLesson :
    (run (oneLesson "b\\c.ts".toList "x\n".toList) usualRoots).disk.Below "/T/out".toList
      ["T".toList, "out".toList, "b".toList, "c.md".toList] := by
  have hname : IsName "b\\c.ts".toList := by decide
  have hplain := plain_oneLesson hname "x\n".toList
  have hfound : discover ((oneLesson "b\\c.ts".toList "x\n".toList).ensureFolders
      usualRoots.destination).1 usualRoots.source usualRoots.pattern usualRoots.respectIgnore =
        .ok ["b\\c.ts".toList] := by decide +kernel
  have hlessons : ∀ lessons, discover ((oneLesson "b\\c.ts".toList "x\n".toList).ensureFolders
      usualRoots.destination).1 usualRoots.source usualRoots.pattern usualRoots.respectIgnore =
        .ok lessons → ∀ lesson ∈ lessons, '\\' ∈ lesson →
          ¬ Climbs 0 ((pageName usualRoots.extension lesson).splitOn '/') := by
    intro lessons hlessons lesson hlesson _
    obtain rfl : ["b\\c.ts".toList] = lessons := Except.ok.inj (hfound.symm.trans hlessons)
    rw [List.mem_singleton.mp hlesson]
    decide +kernel
  have hfile : (run (oneLesson "b\\c.ts".toList "x\n".toList) usualRoots).disk.root.node?
      ["T".toList, "out".toList, "b".toList, "c.md".toList] ≠ some .folder := by decide +kernel
  rcases run_writes_below hplain.wellFormed (by decide) (by decide) hlessons
    (fun place _ names target => hplain.linkless.node?_ne_link _ target)
    (q := ["T".toList, "out".toList, "b".toList, "c.md".toList]) (by decide +kernel) with
    ⟨-, hfolder⟩ | ⟨hbelow, -⟩
  · exact (hfile hfolder).elim
  · exact hbelow

/-- **Two dots between backslashes lead out of the folder of the pages.** -/
theorem run_writes_outside :
    (oneLesson "a\\..\\..\\x.ts".toList "x\n".toList).Plain ∧
      (run (oneLesson "a\\..\\..\\x.ts".toList "x\n".toList) usualRoots).result =
        .ok ["a/../../x.md".toList] ∧
      (oneLesson "a\\..\\..\\x.ts".toList "x\n".toList).root.node? ["T".toList, "x.md".toList] =
        none ∧
      (run (oneLesson "a\\..\\..\\x.ts".toList "x\n".toList) usualRoots).disk.root.node?
          ["T".toList, "x.md".toList] =
        some (.file (Utf8.encode (Page.ofLesson usualRoots.language "x\n".toList))) ∧
      ¬ (run (oneLesson "a\\..\\..\\x.ts".toList "x\n".toList) usualRoots).disk.Below
        usualRoots.destination ["T".toList, "x.md".toList] := by
  have hname : IsName "a\\..\\..\\x.ts".toList := by decide
  have hplace : (run (oneLesson "a\\..\\..\\x.ts".toList "x\n".toList) usualRoots).disk.locate .look
      usualRoots.destination = .ok (.slot ["T".toList] "out".toList false) := by decide +kernel
  refine ⟨plain_oneLesson hname _, by decide +kernel, by decide +kernel, by decide +kernel, ?_⟩
  rintro ⟨place, names, hlook, hnames, hq⟩
  obtain rfl : .slot ["T".toList] "out".toList false = place := Except.ok.inj (hplace.symm.trans hlook)
  simp [Place.names] at hq

end LessonPages
