import LessonPages.Proofs.Absolute
import LessonPages.Proofs.DefaultPattern
import LessonPages.Proofs.Exact

/-!
# Discoveries from a subfolder

A discovery from a subfolder agrees with one from above it: as long as the names in between are chosen
by nothing and excluded by nothing, the lessons of the subfolder are the lessons of the folder that lie
in it, in the same order.

* `isLesson_append_iff` — the lessons of a subfolder are lessons of the folder; `IsEntered.append` — what
  a discovery goes through from the one it goes through from the other.
* `discover_subfolder` — the two discoveries.
* `discover_beside_link` — two discoveries that look into different folders.
-/

namespace LessonPages

open Discovery

/-! ## All names -/

namespace Folder

/-- The names of all entries, at any depth. -/
def allNames : Folder → List Text
  | .empty => []
  | .file name _ rest | .link name _ rest => name :: rest.allNames
  | .folder name inside rest => name :: (inside.allNames ++ rest.allNames)

theorem names_subset_allNames (f : Folder) : f.names ⊆ f.allNames := by
  induction f with
  | empty => exact List.Subset.refl _
  | file name _ rest ih | link name _ rest ih => exact List.cons_subset_cons name ih
  | folder name inside rest _ ih =>
    exact List.cons_subset_cons name (List.subset_append_of_subset_right _ ih)

theorem allNames_subset_of_find? {f inside : Folder} {name : Text}
    (h : f.find? name = some (.folder inside)) : inside.allNames ⊆ f.allNames := by
  induction f with
  | empty => cases h
  | file n _ rest ih | link n _ rest ih =>
    rw [find?] at h
    split at h
    · cases h
    · exact List.subset_cons_of_subset n (ih h)
  | folder n other rest _ ih =>
    rw [find?] at h
    refine List.subset_cons_of_subset n ?_
    split at h
    · cases h
      exact List.subset_append_left _ _
    · exact List.subset_append_of_subset_right _ (ih h)

/-- The names that lead to an entry are among all names. -/
theorem subset_allNames_of_node? {f : Folder} {q : List Text} (h : f.node? q ≠ none) :
    q ⊆ f.allNames := by
  induction q generalizing f with
  | nil => exact List.nil_subset _
  | cons name rest ih =>
    have hname : name ∈ f.names := by
      rw [node?, get?] at h
      split at h
      · exact mem_names_of_find? ‹_›
      · exact mem_names_of_find? ‹_›
      · exact (h rfl).elim
    refine List.cons_subset.mpr ⟨f.names_subset_allNames hname, ?_⟩
    by_cases hrest : rest = []
    · rw [hrest]
      exact List.nil_subset _
    · obtain ⟨inside, hfound⟩ := find?_of_node?_cons hrest h
      rw [node?_cons_of_folder hfound] at h
      exact List.Subset.trans (ih h) (allNames_subset_of_find? hfound)

end Folder

/-! ## Lessons of a subfolder -/

section Lessons

variable {d : Disk} {top : Text} {inside below : Folder} {ignored : Option IgnoreRules}
  {front names : List Text}

/-- Rules of an ignore file in a folder or above it see what is below a subfolder as they see it from the
folder. -/
theorem exclude_append {topNames : List Text} (hload : ∀ rules, ignored = some rules →
      ∃ above, topNames = Path.names rules.base ++ above) (isFolder : Bool) :
    IgnoreRules.Exclude ignored (topNames ++ front) names isFolder ↔
      IgnoreRules.Exclude ignored topNames (front ++ names) isFolder := by
  constructor
  · rintro ⟨rules, above', hrules, habove', h⟩
    obtain ⟨above, habove⟩ := hload rules hrules
    rw [habove, List.append_assoc, List.append_cancel_left_eq] at habove'
    subst habove'
    exact ⟨rules, above, hrules, habove, by rwa [List.append_assoc] at h⟩
  · rintro ⟨rules, above, hrules, habove, h⟩
    refine ⟨rules, above ++ front, hrules, by rw [habove, List.append_assoc], ?_⟩
    rwa [List.append_assoc]

/-- Where a subfolder and the way to it are not excluded, and nothing on the way from there, nothing on the
whole way is. -/
theorem not_exclude_append (hload : ∀ rules, ignored = some rules →
      ∃ above, d.target top = Path.names rules.base ++ above)
    (hfront : IsEntered d top inside ignored front) {first rest : List Text}
    (hsplit : front ++ names = first ++ rest) (hfirst : first ≠ [])
    (hkept : ∀ more, names = more ++ rest → more ≠ [] →
      ¬ IgnoreRules.Exclude ignored (d.target top ++ front) more true) :
    ¬ IgnoreRules.Exclude ignored (d.target top) first true := by
  -- a folder on the way lies above the subfolder, is the subfolder, or lies below it
  rcases List.append_eq_append_iff.mp hsplit with ⟨more, rfl, hmore⟩ | ⟨more, hmore, -⟩
  · by_cases hnil : more = []
    · subst hnil
      rw [List.append_nil] at hfirst ⊢
      exact hfront.kept front [] (List.append_nil _).symm hfirst
    · rw [← exclude_append hload]
      exact hkept more hmore hnil
  · exact hfront.kept first more hmore hfirst

/-- What a discovery from a subfolder goes through, a discovery from the folder goes through. -/
theorem IsEntered.append (hload : ∀ rules, ignored = some rules →
      ∃ above, d.target top = Path.names rules.base ++ above)
    (hinside : inside.Proper) (hbelow : inside.get? front = some (.folder below))
    (hfront : IsEntered d top inside ignored front)
    (h : IsEntered d (Path.joinAll top front) below ignored names) :
    IsEntered d top inside ignored (front ++ names) := by
  have htop : d.target (Path.joinAll top front) = d.target top ++ front :=
    Disk.target_joinAll_of_names (hinside.isName_of_node? (by rw [hfront.folder]; simp)) top
  refine ⟨?_, ?_, ?_⟩
  · rw [Folder.node?_append hbelow]
    exact h.folder
  · exact fun name hname => (List.mem_append.mp hname).elim (hfront.visible name) (h.visible name)
  · intro first rest hsplit hfirst
    refine not_exclude_append hload hfront hsplit hfirst fun more hmore hnil => ?_
    rw [← htop]
    exact h.kept more rest hmore hnil

/-- **The lessons of a subfolder are the lessons of the folder that lie in it.** -/
theorem isLesson_append_iff (hload : ∀ rules, ignored = some rules →
      ∃ above, d.target top = Path.names rules.base ++ above)
    (hinside : inside.Proper) (hline : ∀ name ∈ inside.allNames, '\n' ∉ name)
    (hbelow : inside.get? front = some (.folder below)) (hfront : IsEntered d top inside ignored front)
    (hunchosen : ∀ name ∈ front, ¬ lessonExtension <:+ name) :
    IsLesson d top inside defaultRules ignored (front ++ names) ↔
      IsLesson d (Path.joinAll top front) below defaultRules ignored names := by
  have hfolder := Folder.node?_eq_folder_iff.mpr ⟨below, hbelow⟩
  have htop : d.target (Path.joinAll top front) = d.target top ++ front :=
    Disk.target_joinAll_of_names (hinside.isName_of_node? (by rw [hfolder]; simp)) top
  have hjoin : Path.joinAll (Path.joinAll top front) names = Path.joinAll top (front ++ names) :=
    List.foldl_append.symm
  have hnode : inside.node? (front ++ names) = below.node? names := Folder.node?_append hbelow names
  have hexclude : ∀ names isFolder, IgnoreRules.Exclude ignored (d.target top ++ front) names isFolder ↔
      IgnoreRules.Exclude ignored (d.target top) (front ++ names) isFolder :=
    fun names isFolder => exclude_append hload isFolder
  have hchosen : inside.node? (front ++ names) ≠ none → names ≠ [] →
      (Rule.verdict defaultRules (['/'].intercalate (front ++ names)) = true ↔
        Rule.verdict defaultRules (['/'].intercalate names) = true) := by
    intro hsome hne
    refine verdict_defaultRules_append hne (fun name hname => ⟨?_, ?_⟩) hunchosen
    · exact hinside.isName_of_node? hsome name hname
    · exact hline name (Folder.subset_allNames_of_node? hsome hname)
  constructor
  · intro h
    have hne : names ≠ [] := by
      rintro rfl
      have hentry := h.entry
      rw [List.append_nil, hfolder] at hentry
      simp at hentry
    refine ⟨?_, ?_, (hchosen h.node?_ne_none hne).mp h.chosen, ?_, ?_⟩
    · rw [hjoin, ← hnode]
      exact h.entry
    · exact fun name hname => h.visible name (List.mem_append_right _ hname)
    · rw [htop, hexclude]
      exact h.kept
    · intro first rest hsplit hfirst hrest
      rw [htop, hexclude]
      exact h.entered (front ++ first) rest (by rw [hsplit, List.append_assoc]) (by simp [hfirst]) hrest
  · intro h
    have hsome : inside.node? (front ++ names) ≠ none := by
      rw [hnode]
      exact h.node?_ne_none
    refine ⟨?_, ?_, (hchosen hsome h.ne_nil).mpr h.chosen, ?_, ?_⟩
    · rw [hnode, ← hjoin]
      exact h.entry
    · intro name hname
      rcases List.mem_append.mp hname with hname | hname
      · exact hfront.visible name hname
      · exact h.visible name hname
    · rw [← hexclude, ← htop]
      exact h.kept
    · intro first rest hsplit hfirst hrest
      refine not_exclude_append hload hfront hsplit hfirst fun more hmore hnil => ?_
      rw [← htop]
      exact h.entered more rest hmore hnil hrest

end Lessons

/-! ## Discoveries -/

variable {d : Disk} {top : Text} {inside : Folder} {ignored : Option IgnoreRules} {front : List Text}

/-- The name of a lesson starts with the names of a folder exactly if it goes on from them. -/
theorem prefix_intercalate_iff {names : List Text} (hfront : front ≠ []) (hne : names ≠ [])
    (hslash : ∀ name ∈ front, '/' ∉ name) (hslash' : ∀ name ∈ names, '/' ∉ name) :
    ['/'].intercalate front ++ ['/'] <+: ['/'].intercalate names ↔
      ∃ more, more ≠ [] ∧ names = front ++ more := by
  constructor
  · rintro ⟨behind, hbehind⟩
    refine ⟨behind.splitOn '/', List.splitOn_ne_nil _ _, ?_⟩
    rw [← List.splitOn_intercalate '/' hslash' hne, ← hbehind, List.append_assoc,
      List.singleton_append, List.splitOn_append_cons_self, List.splitOn_intercalate '/' hslash hfront]
  · rintro ⟨more, hmore, rfl⟩
    exact ⟨['/'].intercalate more, (intercalate_append hfront hmore).symm⟩

/-- Sorted lessons of a folder and of a subfolder are told by the same names. -/
theorem map_eq_filter {lessons sub : List Text} (hfront : front ≠ [])
    (hslash : ∀ name ∈ front, '/' ∉ name) (hsorted : lessons.Pairwise (· < ·))
    (hsub : sub.Pairwise (· < ·)) {P : List Text → Prop}
    (hP : ∀ names, P names → names ≠ [] ∧ ∀ name ∈ names, '/' ∉ name)
    (hmem : ∀ lesson, lesson ∈ lessons ↔ ∃ names, lesson = ['/'].intercalate names ∧ P names)
    (hmemSub : ∀ lesson, lesson ∈ sub ↔
      ∃ names, lesson = ['/'].intercalate names ∧ names ≠ [] ∧ P (front ++ names)) :
    sub.map (['/'].intercalate front ++ ['/'] ++ ·) =
      lessons.filter fun lesson => (['/'].intercalate front ++ ['/']).isPrefixOf lesson := by
  refine (List.pairwise_map.mpr (hsub.imp List.append_left_lt)).eq_of_mem_iff (hsorted.filter _) ?_
  intro lesson
  rw [List.mem_map, List.mem_filter, List.isPrefixOf_iff_prefix, hmem]
  constructor
  · rintro ⟨p, hp, rfl⟩
    obtain ⟨names, rfl, hne, hlesson⟩ := (hmemSub p).mp hp
    exact ⟨⟨front ++ names, (intercalate_append hfront hne).symm, hlesson⟩, List.prefix_append _ _⟩
  · rintro ⟨⟨names, rfl, hlesson⟩, hprefix⟩
    obtain ⟨hne, hnames⟩ := hP names hlesson
    obtain ⟨more, hmore, rfl⟩ := (prefix_intercalate_iff hfront hne hslash hnames).mp hprefix
    exact ⟨_, (hmemSub _).mpr ⟨more, rfl, hmore, hlesson⟩, (intercalate_append hfront hmore).symm⟩

/-- Discoveries from a folder and from a subfolder that have the same rules, if the paths of all folders
that the first one goes through can be listed. -/
theorem exists_discover_append (hd : d.Named) {root sub : Text} {below : Folder}
    (htop : Path.absolute d.cwdPath sub = Path.joinAll (Path.absolute d.cwdPath root) front)
    (hroot : d.isFolder root = true) (hsub : d.isFolder sub = true)
    (hlist : isLongPath (Path.absolute d.cwdPath root) = false →
      d.list (Path.absolute d.cwdPath root) = .ok inside)
    (hload : IgnoreRules.load d (Path.absolute d.cwdPath root) = .ok ignored)
    (hloadSub : IgnoreRules.load d (Path.absolute d.cwdPath sub) = .ok ignored)
    (hline : ∀ name ∈ inside.allNames, '\n' ∉ name) (hne : front ≠ [])
    (hbelow : inside.get? front = some (.folder below))
    (hfront : IsEntered d (Path.absolute d.cwdPath root) inside ignored front)
    (hunchosen : ∀ name ∈ front, ¬ lessonExtension <:+ name)
    (hshort : ∀ names, IsEntered d (Path.absolute d.cwdPath root) inside ignored names →
      isLongPath (Path.joinAll (Path.absolute d.cwdPath root) names) = false) :
    ∃ lessons lessonsSub, discover d root defaultPattern true = .ok lessons ∧
      discover d sub defaultPattern true = .ok lessonsSub ∧
      lessonsSub.map (['/'].intercalate front ++ ['/'] ++ ·) =
        lessons.filter fun lesson => (['/'].intercalate front ++ ['/']).isPrefixOf lesson := by
  have hlist := hlist (hshort [] isEntered_nil)
  have hinside := Disk.proper_of_list hd.proper hlist
  have hslash : ∀ {names}, inside.node? names ≠ none → ∀ name ∈ names, '/' ∉ name :=
    fun h name hname => (hinside.isName_of_node? h name hname).no_slash
  have hslashFront : ∀ name ∈ front, '/' ∉ name := hslash (by rw [hfront.folder]; simp)
  have hlistSub : d.list (Path.absolute d.cwdPath sub) = .ok below :=
    htop ▸ Disk.list_joinAll hd hlist hbelow hslashFront (hshort front hfront)
  have habove : ∀ rules, ignored = some rules →
      ∃ above, d.target (Path.absolute d.cwdPath root) = Path.names rules.base ++ above := by
    rintro rules rfl
    exact load_base hd.cwd hload
  obtain ⟨lessons, hfound⟩ := (exists_discover_iff hd hroot (fun _ => hlist)
    readPattern_defaultPattern ((if_pos rfl).trans hload)).mpr hshort
  obtain ⟨lessonsSub, hfoundSub⟩ := (exists_discover_iff hd hsub (fun _ => hlistSub)
    readPattern_defaultPattern ((if_pos rfl).trans hloadSub)).mpr (by
      intro names hentered
      rw [htop] at hentered ⊢
      rw [Path.joinAll, Path.joinAll, ← List.foldl_append]
      exact hshort _ (hfront.append habove hinside hbelow hentered))
  obtain ⟨hsorted, hmem⟩ := discover_lessons hd (fun _ => hlist) readPattern_defaultPattern
    ((if_pos rfl).trans hload) hfound
  obtain ⟨hsortedSub, hmemSub⟩ := discover_lessons hd (fun _ => hlistSub) readPattern_defaultPattern
    ((if_pos rfl).trans hloadSub) hfoundSub
  refine ⟨lessons, lessonsSub, hfound, hfoundSub, ?_⟩
  refine map_eq_filter hne hslashFront hsorted hsortedSub ?_ hmem ?_
  · exact fun names h => ⟨h.ne_nil, hslash h.node?_ne_none⟩
  · intro lesson
    rw [hmemSub, htop]
    refine exists_congr fun names => and_congr_right fun _ => ?_
    rw [isLesson_append_iff habove hinside hline hbelow hfront hunchosen]
    exact ⟨fun h => ⟨h.ne_nil, h⟩, And.right⟩

/-- **A discovery from a subfolder gives the lessons of a discovery from above it that lie there, unless
that one goes through a folder whose path is too long: then it fails at the first of these.** Both go by
the rules of one ignore file, which are anchored at the folder of that file. -/
theorem discover_subfolder (hd : d.Named) {root : Text} (hlist : d.list root = .ok inside)
    (hne : front ≠ []) (hfolder : inside.node? front = some .folder)
    (hsub : d.isFolder (Path.joinAll root front) = true)
    (hfront : ∀ name ∈ front, isHidden name = false ∧ ¬ lessonExtension <:+ name)
    (hline : ∀ name ∈ inside.allNames, '\n' ∉ name)
    (hfind : Ignore.find? d root = Ignore.find? d (Path.joinAll root front))
    (hload : IgnoreRules.load d root = .ok ignored)
    (hkept : ∀ rules, ignored = some rules → ∀ first, first <+: front → first ≠ [] →
      rules.ignores d (Path.joinAll root first) true = false)
    (hup : Path.up ∉ root.splitOn '/' ∨ d.root.Linkless) :
    ((∀ names, IsEntered d (Path.absolute d.cwdPath root) inside ignored names →
        isLongPath (Path.joinAll (Path.absolute d.cwdPath root) names) = false) →
      ∃ lessons lessonsSub, discover d root defaultPattern true = .ok lessons ∧
        discover d (Path.joinAll root front) defaultPattern true = .ok lessonsSub ∧
        lessonsSub.map (['/'].intercalate front ++ ['/'] ++ ·) =
          lessons.filter fun lesson => (['/'].intercalate front ++ ['/']).isPrefixOf lesson) ∧
    ((∃ names, IsEntered d (Path.absolute d.cwdPath root) inside ignored names ∧
        isLongPath (Path.joinAll (Path.absolute d.cwdPath root) names) = true) →
      ∃ names, StopsAt d (Path.absolute d.cwdPath root) inside ignored names ∧
        discover d root defaultPattern true =
          .error (tooLong (Path.joinAll (Path.absolute d.cwdPath root) names))) ∧
    IgnoreRules.load d (Path.joinAll root front) = .ok ignored ∧
    ∀ rules, ignored = some rules →
      ∃ file, Ignore.find? d root = some file ∧ rules.base = Path.parent file := by
  obtain ⟨below, hbelow⟩ := Folder.node?_eq_folder_iff.mp hfolder
  have hnames : ∀ name ∈ front, IsName name :=
    (Disk.proper_of_list hd.proper hlist).isName_of_node? (by rw [hfolder]; simp)
  have hroot := Disk.isFolder_iff_list.mpr ⟨inside, hlist⟩
  have hlistTop := fun hshort => Disk.list_absolute hd hlist hshort hup
  have hloadSub := (IgnoreRules.load_congr hfind).symm.trans hload
  have habsolute : ∀ p, IgnoreRules.load d (Path.absolute d.cwdPath p) = IgnoreRules.load d p :=
    fun p => IgnoreRules.load_congr (Ignore.find?_absolute hd.cwd p)
  have hloadTop := (habsolute root).trans hload
  refine ⟨?_, ?_, hloadSub, ?_⟩
  · intro hshort
    refine exists_discover_append hd (Disk.absolute_joinAll hd.cwd hnames root) hroot hsub hlistTop
      hloadTop ((habsolute _).trans hloadSub) hline hne hbelow ?_ (fun name hname => (hfront name hname).2)
      hshort
    refine ⟨hfolder, fun name hname => (hfront name hname).1, ?_⟩
    rintro first rest rfl hfirst hexclude
    obtain ⟨rules, above, rfl, habove, -⟩ := id hexclude
    rw [Disk.target_absolute hd.cwd] at habove hexclude
    have hignored := (ignores_iff hd.cwd habove hfirst
      (fun name hname => hnames name (List.mem_append_left _ hname)) true).mpr hexclude
    rw [hkept rules rfl first (List.prefix_append _ _) hfirst] at hignored
    cases hignored
  · rintro ⟨names, hentered, hlong⟩
    exact exists_stopsAt hd hroot hlistTop readPattern_defaultPattern ((if_pos rfl).trans hloadTop)
      hentered hlong
  · rintro rules rfl
    exact IgnoreRules.exists_file hload

/-- A folder with lessons in the folders `s` and `s/t`, and an ignore file. -/
def nestedLessons : Folder :=
  .file ignoreFileName (Utf8.encode "out/\n".toList)
    (.folder "s".toList (.file "c.ts".toList [] (.folder "t".toList (.file "a.ts".toList []
      (.folder "out".toList (.file "b.ts".toList [] .empty) .empty)) .empty)) .empty)

/-- A disk with these lessons in the folder `/T`. -/
def nestedDisk : Disk := ⟨.folder "T".toList nestedLessons .empty, ["T".toList]⟩

theorem discover_subfolder_nestedDisk :
    ∃ lessons, discover nestedDisk "/T/s/t".toList defaultPattern true = .ok lessons ∧
      lessons.map ("s/t/".toList ++ ·) = ["s/t/a.ts".toList] := by
  have hfound : discover nestedDisk "/T".toList defaultPattern true =
      .ok ["s/c.ts".toList, "s/t/a.ts".toList] := by decide +kernel
  have hload : IgnoreRules.load nestedDisk "/T".toList = .ok (some ⟨"/T".toList,
      [⟨true, [.anyDepth, .glob ("out".toList.map .literal), .anyDepth], true⟩]⟩) := by decide +kernel
  have hlist : nestedDisk.list "/T".toList = .ok nestedLessons := by decide +kernel
  have hfolder : nestedLessons.node? ["s".toList, "t".toList] = some .folder := by decide +kernel
  have hd : nestedDisk.Named := ⟨by decide, by decide⟩
  obtain ⟨hboth, -⟩ :=
    discover_subfolder hd hlist (by simp) hfolder (by decide +kernel) (by decide +kernel)
      (by decide +kernel) (by decide +kernel) hload
      (by
        rintro _ ⟨⟩ first hfirst hne
        simp only [List.prefix_cons_iff, List.prefix_nil] at hfirst
        rcases hfirst with rfl | ⟨_, rfl, rfl | ⟨_, rfl, rfl⟩⟩
        · exact (hne rfl).elim
        · decide +kernel
        · decide +kernel)
      (.inl (by decide))
  -- the discovery from above has not failed, so it has met no path that is too long
  have hnormal : Path.absolute nestedDisk.cwdPath "/T".toList = "/T".toList := by decide +kernel
  have hshort := (exists_discover_iff hd (Disk.isFolder_iff_list.mpr ⟨_, hlist⟩)
    (fun _ => hnormal.symm ▸ hlist) readPattern_defaultPattern
    ((if_pos rfl).trans (hnormal.symm ▸ hload))).mp ⟨_, hfound⟩
  obtain ⟨lessons, lessonsSub, hlessons, hsub, hsame⟩ := hboth hshort
  obtain rfl := Except.ok.inj (hfound.symm.trans hlessons)
  exact ⟨lessonsSub, hsub, hsame.trans (by decide +kernel)⟩

/-- A disk with a link `/T/link` to the folder `/T/a/b`; the only lesson is in the folder `/T/a/s`. -/
def besideLink : Disk :=
  ⟨.folder "T".toList (.folder "a".toList (.folder "b".toList .empty
    (.folder "s".toList (.file "p.ts".toList (Utf8.encode "x\n".toList) .empty) .empty))
    (.link "link".toList "a/b".toList .empty)) .empty, ["T".toList]⟩

/-- **Two dots behind a link lead to a folder and to its subfolder; the discovery from the one looks into
another folder, and the discovery from the other finds nothing to look into.** -/
theorem discover_beside_link :
    besideLink.Named ∧
      (besideLink.list "/T/link/..".toList = .ok (.folder "b".toList .empty
        (.folder "s".toList (.file "p.ts".toList (Utf8.encode "x\n".toList) .empty) .empty)) ∧
        besideLink.list "/T/link/../s".toList =
          .ok (.file "p.ts".toList (Utf8.encode "x\n".toList) .empty)) ∧
      (Ignore.find? besideLink "/T/link/..".toList = none ∧
        Ignore.find? besideLink "/T/link/../s".toList = none) ∧
      discover besideLink "/T/link/..".toList defaultPattern true = .ok ["a/s/p.ts".toList] ∧
      discover besideLink "/T/link/../s".toList defaultPattern true =
        .error (.discovery (.unlistable "/T/s".toList ⟨.notFound, "/T/s".toList⟩)) :=
  ⟨⟨by decide, by decide⟩, ⟨by decide +kernel, by decide +kernel⟩,
    ⟨by decide +kernel, by decide +kernel⟩, by decide +kernel, by decide +kernel⟩

end LessonPages
