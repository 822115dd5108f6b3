import Mathlib.Data.List.Sort
import LessonPages.Proofs.Entered

/-!
# What exactly a discovery gives

The lessons of a folder can be told without a walk, by what stands at the names below the folder and by
what the pattern and the ignore rules say about these names. A discovery gives these lessons, each once
and in order, however the folders list their entries, unless it goes through a folder whose path is too
long to be listed.

* `Disk.SameTree` — disks that differ in the order of entries only; `Disk.SameTree.list`,
  `Disk.SameTree.load` — they look the same.
* `IsLesson` — what makes an entry a lesson.
* `discover_congr` — discoveries on disks that look the same end alike.
* `discover_exact` — a discovery gives exactly the lessons.
* `discover_behind_link` — a discovery that looks into another folder.
-/

namespace LessonPages

open Discovery

/-! ## The order of entries -/

namespace Disk

variable {d d' : Disk} {path top : Text} {purpose : Purpose} {place : Place} {e : Entry}

/-- Two disks hold the same at all names, in whatever order their folders list it. -/
structure SameTree (d d' : Disk) : Prop where
  cwd_eq : d'.cwd = d.cwd
  node? : ∀ q, d'.root.node? q = d.root.node? q

/-- Rules are loaded from what the ignore file says. -/
theorem load_of_read (hfind : Ignore.find? d' top = Ignore.find? d top)
    (hread : ∀ path content, Ignore.find? d top = some path → d.read path = .ok content →
      d'.read path = .ok content)
    {ignored : Option IgnoreRules} (hload : IgnoreRules.load d top = .ok ignored) :
    IgnoreRules.load d' top = .ok ignored := by
  unfold IgnoreRules.load at hload ⊢
  rw [hfind]
  split at hload
  · exact hload
  · rename_i path hfound
    unfold IgnoreRules.readText at hload ⊢
    cases hcontent : d.read path with
    | error fault =>
      rw [hcontent] at hload
      cases fault <;> cases hload
    | ok content =>
      rw [hcontent] at hload
      rw [hread path content hfound hcontent]
      exact hload

namespace SameTree

theorem symm (h : d.SameTree d') : d'.SameTree d := ⟨h.cwd_eq.symm, fun q => (h.node? q).symm⟩

theorem locate (h : d.SameTree d') (hplace : d.locate purpose path = .ok place) :
    d'.locate purpose path = .ok place := by
  refine locate_eq_ok_iff_routed.mpr ((locate_eq_ok_iff_routed.mp hplace).mono h.cwd_eq ?_ ?_)
  · intro q hq
    rw [h.node?, hq]
  · intro q target
    rw [h.node?]

theorem entryAt (h : d.SameTree d') (he : d.entryAt place = .ok e) :
    ∃ e', d'.entryAt place = .ok e' ∧ e'.node = e.node := by
  have hget : ∀ {q : List Text} {e : Entry}, d.root.get? q = some e →
      ∃ e', d'.root.get? q = some e' ∧ e'.node = e.node := by
    intro q e hq
    have hnode := h.node? q
    rwa [Folder.node?, Folder.node?, hq, Option.map_some, Option.map_eq_some_iff] at hnode
  cases place with
  | folder names =>
    rw [Disk.entryAt] at he ⊢
    split at he
    · rename_i hfound
      cases he
      obtain ⟨e', hfound', hnode⟩ := hget hfound
      exact ⟨e', by rw [hfound'], hnode⟩
    · cases he
  | slot dir name slash =>
    rw [Disk.entryAt] at he ⊢
    split at he
    · cases he
    · rename_i hshort
      rw [if_neg hshort]
      split at he
      · cases he
      · rename_i content hfound
        obtain ⟨e', hfound', hnode⟩ := hget hfound
        obtain rfl := Entry.node_eq_file_iff.mp hnode
        rw [hfound']
        exact ⟨e, he, rfl⟩
      · rename_i found hnot hfound
        cases he
        obtain ⟨e', hfound', hnode⟩ := hget hfound
        rw [hfound']
        cases e' with
        | file content => exact (hnot content (Entry.node_eq_file_iff.mp hnode.symm)).elim
        | link _ => exact ⟨_, rfl, hnode⟩
        | folder _ => exact ⟨_, rfl, hnode⟩

theorem look (h : d.SameTree d') (he : d.look purpose path = .ok e) :
    ∃ e', d'.look purpose path = .ok e' ∧ e'.node = e.node := by
  unfold Disk.look at he ⊢
  split at he
  · cases he
  · rename_i place hplace
    rw [h.locate hplace]
    exact h.entryAt he

theorem read (h : d.SameTree d') {content : Utf8.Bytes} (hread : d.read path = .ok content) :
    d'.read path = .ok content := by
  obtain ⟨hnul, hlook⟩ := read_eq_ok_iff_look.mp hread
  obtain ⟨e', hlook', hnode⟩ := h.look hlook
  obtain rfl := Entry.node_eq_file_iff.mp hnode
  exact read_eq_ok_iff_look.mpr ⟨hnul, hlook'⟩

/-- A folder is listed with the same entries. -/
theorem list (h : d.SameTree d') {inside : Folder} (hlist : d.list path = .ok inside) :
    ∃ inside', d'.list path = .ok inside' ∧ ∀ q, inside'.node? q = inside.node? q := by
  obtain ⟨hnul, hlook⟩ := list_eq_ok_iff_look.mp hlist
  obtain ⟨e', hlook', hnode⟩ := h.look hlook
  obtain ⟨inside', rfl⟩ := Entry.node_eq_folder_iff.mp hnode
  have hlist' := list_eq_ok_iff_look.mpr ⟨hnul, hlook'⟩
  refine ⟨inside', hlist', ?_⟩
  intro q
  obtain ⟨-, place, hplace, hget⟩ := list_eq_ok hlist
  obtain ⟨-, place', hplace', hget'⟩ := list_eq_ok hlist'
  obtain rfl : place = place' := Except.ok.inj ((h.locate hplace).symm.trans hplace')
  rw [← Folder.node?_append hget, ← Folder.node?_append hget', h.node?]

theorem isFolder_eq (h : d.SameTree d') (path : Text) : d'.isFolder path = d.isFolder path := by
  have himp : ∀ {d d' : Disk}, d.SameTree d' → d.isFolder path = true → d'.isFolder path = true := by
    intro d d' h hfolder
    obtain ⟨inside, hlist⟩ := isFolder_iff_list.mp hfolder
    obtain ⟨inside', hlist', -⟩ := h.list hlist
    exact isFolder_iff_list.mpr ⟨inside', hlist'⟩
  exact Bool.eq_iff_iff.mpr ⟨himp h.symm, himp h⟩

theorem isFile_eq (h : d.SameTree d') (path : Text) : d'.isFile path = d.isFile path := by
  have himp : ∀ {d d' : Disk}, d.SameTree d' → d.isFile path = true → d'.isFile path = true := by
    intro d d' h hfile
    obtain ⟨content, hread⟩ := isFile_iff_read.mp hfile
    exact isFile_iff_read.mpr ⟨content, h.read hread⟩
  exact Bool.eq_iff_iff.mpr ⟨himp h.symm, himp h⟩

/-- The same ignore rules count. -/
theorem load (h : d.SameTree d') {ignored : Option IgnoreRules}
    (hload : IgnoreRules.load d top = .ok ignored) : IgnoreRules.load d' top = .ok ignored := by
  apply load_of_read ?_ (fun _ _ _ => h.read) hload
  rw [Ignore.find?, Ignore.find?, cwdPath_congr h.cwd_eq, funext h.isFile_eq]

end SameTree

end Disk

/-! ## Lessons -/

variable {d : Disk} {root pattern top : Text} {respectIgnore : Bool} {inside : Folder}
  {chosen : List Rule} {ignored : Option IgnoreRules} {names : List Text}

/-- What makes an entry below a folder a lesson: it is no folder and no link to one, no part of its name
is hidden, the pattern chooses it, and the ignore rules exclude neither it nor a folder on the way. -/
structure IsLesson (d : Disk) (top : Text) (inside : Folder) (chosen : List Rule)
    (ignored : Option IgnoreRules) (names : List Text) : Prop where
  entry : (∃ content, inside.node? names = some (.file content)) ∨
    (∃ target, inside.node? names = some (.link target)) ∧
      d.isFolder (Path.joinAll top names) = false
  visible : ∀ name ∈ names, isHidden name = false
  chosen : Rule.verdict chosen (['/'].intercalate names) = true
  kept : ¬ IgnoreRules.Exclude ignored (d.target top) names false
  entered : ∀ front behind, names = front ++ behind → front ≠ [] → behind ≠ [] →
    ¬ IgnoreRules.Exclude ignored (d.target top) front true

namespace IsLesson

theorem node?_ne_none (h : IsLesson d top inside chosen ignored names) : inside.node? names ≠ none := by
  rcases h.entry with ⟨_, hnode⟩ | ⟨⟨_, hnode⟩, -⟩ <;> rw [hnode] <;> simp

theorem ne_nil (h : IsLesson d top inside chosen ignored names) : names ≠ [] := by
  rintro rfl
  rcases h.entry with ⟨_, hnode⟩ | ⟨⟨_, hnode⟩, -⟩ <;> cases hnode

theorem isName (h : IsLesson d top inside chosen ignored names) (hinside : inside.Proper) :
    ∀ name ∈ names, IsName name := hinside.isName_of_node? h.node?_ne_none

end IsLesson

/-- What a walk finds and the rules do not exclude are the lessons. -/
theorem finds_iff_isLesson (hcwd : ∀ name ∈ d.cwd, IsName name) (hinside : inside.Proper)
    (hload : ∀ rules, ignored = some rules →
      ∃ above, d.target top = Path.names rules.base ++ above) {lesson : Text} :
    (⟨d, chosen, ignored⟩ : Search).Finds top [] inside ⟨lesson, false⟩ names ↔
      lesson = ['/'].intercalate names ∧ IsLesson d top inside chosen ignored names := by
  have hexcludes : ∀ front behind isFolder, inside.node? names ≠ none → names = front ++ behind →
      front ≠ [] → ((⟨d, chosen, ignored⟩ : Search).excludes (Path.joinAll top front) isFolder = true ↔
        IgnoreRules.Exclude ignored (d.target top) front isFolder) := by
    intro front behind isFolder hnode hnames hfront
    apply excludes_iff hcwd hload hfront
    intro name hname
    exact hinside.isName_of_node? hnode name (hnames ▸ List.mem_append_left _ hname)
  constructor
  · intro h
    have hnode := h.node?_ne_none
    have hpath : lesson = ['/'].intercalate names := h.path_eq
    refine ⟨hpath, h.entry, h.visible, hpath ▸ h.chosen, ?_, ?_⟩
    · rw [← hexcludes names [] false hnode (List.append_nil _).symm h.ne_nil, Bool.not_eq_true]
      exact h.ignored_eq.symm
    · intro front behind hnames hfront hbehind
      rw [← hexcludes front behind true hnode hnames hfront, Bool.not_eq_true]
      exact h.entered front behind hnames hfront hbehind
  · rintro ⟨rfl, h⟩
    have hnode := h.node?_ne_none
    have hne := h.ne_nil
    refine ⟨rfl, ?_, h.entry, h.visible, h.chosen, ?_⟩
    · have hkept := h.kept
      rw [← hexcludes names [] false hnode (List.append_nil _).symm hne, Bool.not_eq_true] at hkept
      exact hkept.symm
    · intro front behind hnames hfront hbehind
      have hentered := h.entered front behind hnames hfront hbehind
      rwa [← hexcludes front behind true hnode hnames hfront, Bool.not_eq_true] at hentered

theorem pairwise_result_walk {s : Search} (hinside : inside.Proper) {found : List Text}
    (h : (Survey.ofSights (s.walk top inside)).result = .ok found) : found.Pairwise (· < ·) := by
  have hnodup := nodup_result_walk hinside h
  obtain ⟨-, rfl⟩ := Survey.result_eq_ok_iff.mp h
  apply pairwise_lt_sortBy
  rw [List.map_id']
  exact (perm_sortBy id _).nodup_iff.mp hnodup

/-- What a discovery gives are the lessons in its folder. -/
theorem discover_lessons (hd : d.Named)
    (hlist : isLongPath (Path.absolute d.cwdPath root) = false →
      d.list (Path.absolute d.cwdPath root) = .ok inside)
    (hchosen : readPattern pattern = .ok chosen)
    (hignored : (if respectIgnore then IgnoreRules.load d (Path.absolute d.cwdPath root)
      else .ok none) = .ok ignored) {lessons : List Text}
    (h : discover d root pattern respectIgnore = .ok lessons) :
    lessons.Pairwise (· < ·) ∧ ∀ lesson, lesson ∈ lessons ↔ ∃ names,
      lesson = ['/'].intercalate names ∧
        IsLesson d (Path.absolute d.cwdPath root) inside chosen ignored names := by
  obtain ⟨-, _, _, there, hchosen', hignored', hthere, hfound⟩ := discover_eq_ok_iff.mp h
  obtain rfl := Except.ok.inj (hchosen'.symm.trans hchosen)
  obtain rfl := Except.ok.inj (hignored'.symm.trans hignored)
  obtain rfl := Except.ok.inj (hthere.symm.trans (hlist (isLongPath_of_list hthere)))
  have hinside := Disk.proper_of_list hd.proper hthere
  constructor
  · exact pairwise_result_walk hinside hfound
  · intro lesson
    rw [mem_result_walk hfound, Search.mem_met_iff hinside]
    exact exists_congr fun names => finds_iff_isLesson hd.cwd hinside (base_above hd.cwd hignored)

/-! ## Disks that look the same -/

section Same

variable {d' : Disk} {inside' : Folder}

theorem IsLesson.congr (h : IsLesson d top inside chosen ignored names)
    (htarget : d'.target top = d.target top) (hnode : ∀ q, inside'.node? q = inside.node? q)
    (hlinks : ∀ target, inside.node? names = some (.link target) →
      d'.isFolder (Path.joinAll top names) = d.isFolder (Path.joinAll top names)) :
    IsLesson d' top inside' chosen ignored names := by
  obtain ⟨hentry, hvisible, hchosen, hkept, hentered⟩ := h
  refine ⟨?_, hvisible, hchosen, htarget ▸ hkept, htarget ▸ hentered⟩
  rw [hnode]
  rcases hentry with hfile | ⟨⟨target, hlink⟩, hfolder⟩
  · exact .inl hfile
  · exact .inr ⟨⟨target, hlink⟩, (hlinks target hlink).trans hfolder⟩

theorem IsEntered.congr (h : IsEntered d top inside ignored names)
    (htarget : d'.target top = d.target top) (hnode : ∀ q, inside'.node? q = inside.node? q) :
    IsEntered d' top inside' ignored names :=
  ⟨(hnode names).trans h.folder, h.visible, htarget ▸ h.kept⟩

theorem StopsAt.congr (h : StopsAt d top inside ignored names)
    (htarget : d'.target top = d.target top) (hnode : ∀ q, inside'.node? q = inside.node? q) :
    StopsAt d' top inside' ignored names := by
  refine ⟨h.entered.congr htarget hnode, h.long, ?_⟩
  intro other hother
  exact h.first other (hother.congr htarget.symm fun q => (hnode q).symm)

/-- **A discovery ends alike on disks on which the same stands below its folder, the same rules count, and
the links below it lead to folders alike.** -/
theorem discover_congr (hd : d.Named) (hd' : d'.Named) (hcwd : d'.cwd = d.cwd)
    (hroot : d.isFolder root = true) (hroot' : d'.isFolder root = true)
    (hlist : isLongPath (Path.absolute d.cwdPath root) = false →
      d.list (Path.absolute d.cwdPath root) = .ok inside)
    (hlist' : isLongPath (Path.absolute d.cwdPath root) = false →
      d'.list (Path.absolute d.cwdPath root) = .ok inside')
    (hchosen : readPattern pattern = .ok chosen)
    (hignored : (if respectIgnore then IgnoreRules.load d (Path.absolute d.cwdPath root)
      else .ok none) = .ok ignored)
    (hload : IgnoreRules.load d (Path.absolute d.cwdPath root) = .ok ignored →
      IgnoreRules.load d' (Path.absolute d.cwdPath root) = .ok ignored)
    (hnode : ∀ q, inside'.node? q = inside.node? q)
    (hlinks : ∀ names target, inside.node? names = some (.link target) →
      d'.isFolder (Path.joinAll (Path.absolute d.cwdPath root) names) =
        d.isFolder (Path.joinAll (Path.absolute d.cwdPath root) names)) :
    discover d' root pattern respectIgnore = discover d root pattern respectIgnore := by
  have hpath := Disk.cwdPath_congr hcwd
  have htarget := Disk.target_congr hcwd (Path.absolute d.cwdPath root)
  have hignored' : (if respectIgnore then IgnoreRules.load d' (Path.absolute d'.cwdPath root)
      else .ok none) = .ok ignored := by
    rw [hpath]
    split
    · rename_i hrespect
      rw [if_pos hrespect] at hignored
      exact hload hignored
    · rename_i hrespect
      rwa [if_neg hrespect] at hignored
  rw [← hpath] at hlist'
  cases hfound : discover d root pattern respectIgnore with
  | ok lessons =>
    obtain ⟨lessons', hfound'⟩ : ∃ lessons', discover d' root pattern respectIgnore = .ok lessons' := by
      refine (exists_discover_iff hd' hroot' hlist' hchosen hignored').mpr fun names hnames => ?_
      rw [hpath] at hnames ⊢
      exact (exists_discover_iff hd hroot hlist hchosen hignored).mp ⟨lessons, hfound⟩ names
        (hnames.congr htarget.symm fun q => (hnode q).symm)
    obtain ⟨hsorted, hmem⟩ := discover_lessons hd hlist hchosen hignored hfound
    obtain ⟨hsorted', hmem'⟩ := discover_lessons hd' hlist' hchosen hignored' hfound'
    rw [hfound', Except.ok.injEq]
    apply hsorted'.eq_of_mem_iff hsorted
    intro lesson
    rw [hmem', hmem, hpath]
    refine exists_congr fun names => and_congr_right' ⟨fun h => ?_, fun h => ?_⟩
    · refine h.congr htarget.symm (fun q => (hnode q).symm) fun target hlink => ?_
      exact (hlinks names target ((hnode names).symm.trans hlink)).symm
    · exact h.congr htarget hnode (hlinks names)
  | error failure =>
    obtain ⟨names, hstops, rfl⟩ :=
      (discover_eq_error_iff hd hroot hlist hchosen hignored).mp hfound
    refine (discover_eq_error_iff hd' hroot' hlist' hchosen hignored').mpr ⟨names, ?_⟩
    rw [hpath]
    exact ⟨hstops.congr htarget hnode, rfl⟩

/-- The order of the entries plays no part in a discovery. -/
theorem Disk.SameTree.discover (hsame : d.SameTree d') (hd : d.Named) (hd' : d'.Named)
    (hroot : d.isFolder root = true)
    (hlist : isLongPath (Path.absolute d.cwdPath root) = false →
      d.list (Path.absolute d.cwdPath root) = .ok inside)
    (hchosen : readPattern pattern = .ok chosen)
    (hignored : (if respectIgnore then IgnoreRules.load d (Path.absolute d.cwdPath root)
      else .ok none) = .ok ignored) :
    LessonPages.discover d' root pattern respectIgnore =
      LessonPages.discover d root pattern respectIgnore := by
  obtain ⟨inside', hlist', hnode⟩ : ∃ inside', (isLongPath (Path.absolute d.cwdPath root) = false →
      d'.list (Path.absolute d.cwdPath root) = .ok inside') ∧
      ∀ q, inside'.node? q = inside.node? q := by
    cases hlong : isLongPath (Path.absolute d.cwdPath root) with
    | true => exact ⟨inside, by simp, fun _ => rfl⟩
    | false =>
      obtain ⟨inside', hlist', hnode⟩ := hsame.list (hlist hlong)
      exact ⟨inside', fun _ => hlist', hnode⟩
  exact discover_congr hd hd' hsame.cwd_eq hroot ((hsame.isFolder_eq root).trans hroot) hlist hlist'
    hchosen hignored hsame.load hnode fun _ _ _ => hsame.isFolder_eq _

end Same

/-! ## Discoveries -/

/-- **A discovery gives exactly the lessons in the folder of its root, each once and in order, unless it
goes through a folder whose path is too long: then it fails at the first of these. The order in which
folders list their entries plays no part. The root may not go up, unless there are no links.** -/
theorem discover_exact (hd : d.Named) (hlist : d.list root = .ok inside)
    (hup : Path.up ∉ root.splitOn '/' ∨ d.root.Linkless)
    (hchosen : readPattern pattern = .ok chosen)
    (hignored : (if respectIgnore then IgnoreRules.load d (Path.absolute d.cwdPath root)
      else .ok none) = .ok ignored) :
    ((∀ names, IsEntered d (Path.absolute d.cwdPath root) inside ignored names →
        isLongPath (Path.joinAll (Path.absolute d.cwdPath root) names) = false) →
      ∃ lessons, discover d root pattern respectIgnore = .ok lessons ∧
        lessons.Pairwise (· < ·) ∧
        ∀ lesson, lesson ∈ lessons ↔ ∃ names, lesson = ['/'].intercalate names ∧
          IsLesson d (Path.absolute d.cwdPath root) inside chosen ignored names) ∧
    ((∃ names, IsEntered d (Path.absolute d.cwdPath root) inside ignored names ∧
        isLongPath (Path.joinAll (Path.absolute d.cwdPath root) names) = true) →
      ∃ names, StopsAt d (Path.absolute d.cwdPath root) inside ignored names ∧
        discover d root pattern respectIgnore =
          .error (tooLong (Path.joinAll (Path.absolute d.cwdPath root) names))) ∧
    ∀ d' : Disk, d'.Named → d.SameTree d' →
      discover d' root pattern respectIgnore = discover d root pattern respectIgnore := by
  have hroot := Disk.isFolder_iff_list.mpr ⟨inside, hlist⟩
  have hlist := fun hshort => Disk.list_absolute hd hlist hshort hup
  refine ⟨?_, ?_, ?_⟩
  · intro hshort
    obtain ⟨lessons, hfound⟩ := (exists_discover_iff hd hroot hlist hchosen hignored).mpr hshort
    exact ⟨lessons, hfound, discover_lessons hd hlist hchosen hignored hfound⟩
  · rintro ⟨names, hentered, hlong⟩
    exact exists_stopsAt hd hroot hlist hchosen hignored hentered hlong
  · intro d' hd' hsame
    exact hsame.discover hd hd' hroot hlist hchosen hignored

/-- A disk with a file and a link in the folder `/T`, and an ignore file that excludes another file. -/
def ignoredLesson : Disk :=
  ⟨.folder "T".toList (.file ignoreFileName (Utf8.encode "b.ts\n".toList)
    (.link "c.ts".toList "nowhere".toList (.file "b.ts".toList [] (.file "a.ts".toList [] .empty))))
    .empty, ["T".toList]⟩

theorem discover_exact_ignoredLesson :
    ∃ inside chosen ignored, ignoredLesson.list "/T".toList = .ok inside ∧
      discover ignoredLesson "/T".toList defaultPattern true = .ok ["a.ts".toList, "c.ts".toList] ∧
      ∃ names, "c.ts".toList = ['/'].intercalate names ∧
        IsLesson ignoredLesson "/T".toList inside chosen ignored names := by
  have hfound : discover ignoredLesson "/T".toList defaultPattern true =
      .ok ["a.ts".toList, "c.ts".toList] := by decide +kernel
  have hnormal : Path.absolute ignoredLesson.cwdPath "/T".toList = "/T".toList := by decide +kernel
  obtain ⟨hroot, chosen, ignored, inside, hchosen, hignored, hlist, -⟩ := discover_eq_ok_iff.mp hfound
  have hshort := (exists_discover_iff (d := ignoredLesson) ⟨by decide, by decide⟩ hroot
    (fun _ => hlist) hchosen hignored).mp ⟨_, hfound⟩
  rw [hnormal] at hlist
  obtain ⟨lessons, hlessons, -, hmem⟩ := (discover_exact (d := ignoredLesson)
    ⟨by decide, by decide⟩ hlist (.inl (by decide)) hchosen hignored).1 hshort
  obtain rfl : ["a.ts".toList, "c.ts".toList] = lessons := Except.ok.inj (hfound.symm.trans hlessons)
  rw [hnormal] at hmem
  exact ⟨inside, chosen, ignored, hlist, hfound, (hmem _).mp (by simp)⟩

/-- A disk with a link `/T/link` to the folder `/T/a/b`; the only lesson is in the folder `/T/a`. -/
def linkedFolder : Disk :=
  ⟨.folder "T".toList (.folder "a".toList (.folder "b".toList .empty
    (.file "p.ts".toList (Utf8.encode "x\n".toList) .empty)) (.link "link".toList "a/b".toList .empty))
    .empty, ["T".toList]⟩

/-- **Two dots behind a link lead to one folder, and the discovery looks into another one.** -/
theorem discover_behind_link :
    linkedFolder.Named ∧ linkedFolder.isFolder "/T/link/..".toList = true ∧
      linkedFolder.list "/T/link/..".toList = .ok (.folder "b".toList .empty
        (.file "p.ts".toList (Utf8.encode "x\n".toList) .empty)) ∧
      discover linkedFolder "/T/link/..".toList defaultPattern true = .ok ["a/p.ts".toList] :=
  ⟨⟨by decide, by decide⟩, by decide +kernel, by decide +kernel, by decide +kernel⟩

end LessonPages
