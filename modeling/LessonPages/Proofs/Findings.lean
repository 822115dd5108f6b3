import Mathlib.Data.List.Perm.Basic
import LessonPages.Discovery
import LessonPages.Proofs.Paths

/-!
# What a discovery finds

The order in which a walk meets its findings is settled by sorting only, so a plain recursion over
the tree has the same findings. They are told by names: the entries that no folder on the way and no
name keeps from being found.

* `Search.met` — the findings by plain recursion; `Search.perm_walk` — they are those of a walk on
  which no folder is blocked.
* `Search.Finds` — what makes an entry a finding; `Search.mem_met_iff` — the recursion meets exactly
  these, and by `Search.apart_met` each of them once.
* `discover_eq_ok_iff` — the parts of a discovery.
* `discover_names`, `discover_eq_ok` — the names of lessons, and their files in a tree without links.
-/

namespace LessonPages

namespace Discovery

theorem listFolder_eq_ok_iff {d : Disk} {path : Text} {inside : Folder} :
    listFolder d path = .ok inside ↔ d.list path = .ok inside := by
  unfold listFolder
  split <;> simp_all

/-- What a walk comes upon in a folder and in the folders in it, in whatever order. -/
def Sights.all (f : Sights) : List Sight := f.own.map .found ++ f.below.flatMap (·.2)

theorem Sights.perm_all (f : Sights) : f.inOrder.Perm f.all :=
  .append_left _ (.flatMap_right _ (perm_sortBy _ _))

namespace Survey

variable {sights : List Sight} {s : Survey}

theorem result_eq_ok_iff {found : List Text} :
    s.result = .ok found ↔ s.failure = none ∧ found = lessons s.findings := by
  unfold result
  cases s.failure <;> simp [eq_comm]

theorem result_eq_error_iff {failure : Failure} :
    s.result = .error failure ↔ s.failure = some failure := by
  unfold result
  cases s.failure <;> simp

/-- A walk on which no folder is blocked comes upon nothing but the findings that are kept. -/
theorem eq_map_found (h : (ofSights sights).failure = none) :
    sights = (ofSights sights).findings.map .found := by
  induction sights with
  | nil => rfl
  | cons sight rest ih =>
    cases sight with
    | found finding => exact congrArg (.found finding :: ·) (ih h)
    | blocked failure => cases h

end Survey

namespace Search

variable {s : Search} {f : Folder}

/-- The findings in the entries of a folder, in the order of the entries. -/
def met (s : Search) (path below : Text) : Folder → List Finding
  | .empty => []
  | .file name _ rest =>
    s.finding name (Path.join path name) (below ++ name) ++ s.met path below rest
  | .link name _ rest =>
    if s.disk.isFolder (Path.join path name) then s.met path below rest
    else s.finding name (Path.join path name) (below ++ name) ++ s.met path below rest
  | .folder name inside rest =>
    if isHidden name || s.excludes (Path.join path name) true then s.met path below rest
    else s.met (Path.join path name) (below ++ name ++ ['/']) inside ++ s.met path below rest

/-- What is met in a folder that can be listed is what a walk comes upon when it enters the folder. -/
theorem enter_eq {path : Text} {inside : Sights}
    (h : ∀ failure, .blocked failure ∉ s.enter path inside) : s.enter path inside = inside.inOrder := by
  unfold enter at h ⊢
  split at h
  · rename_i failure _
    exact (h failure (List.mem_singleton_self _)).elim
  · rfl

/-- **A walk on which no folder is blocked meets each finding of the plain recursion as often as that
does.** -/
theorem perm_met (s : Search) (path below : Text) (f : Folder)
    (h : ∀ failure, .blocked failure ∉ (s.visit path below f).all) :
    (s.visit path below f).all.Perm ((s.met path below f).map .found) := by
  induction f generalizing path below with
  | empty => exact .refl _
  | file name _ rest ih =>
    rw [visit, Sights.all, List.map_append, List.append_assoc] at h ⊢
    rw [met, List.map_append]
    exact .append_left _ (ih path below fun failure hmem => h failure (List.mem_append_right _ hmem))
  | link name _ rest ih =>
    rw [visit] at h ⊢
    rw [met]
    split at h
    · rename_i hlink
      rw [if_pos hlink, if_pos hlink]
      exact ih path below h
    · rename_i hlink
      rw [if_neg hlink, if_neg hlink]
      rw [Sights.all, List.map_append, List.append_assoc] at h ⊢
      rw [List.map_append]
      exact .append_left _ (ih path below fun failure hmem => h failure (List.mem_append_right _ hmem))
  | folder name inside rest ihInside ih =>
    rw [visit] at h ⊢
    rw [met]
    split at h
    · rename_i hkept
      rw [if_pos hkept, if_pos hkept]
      exact ih path below h
    · rename_i hkept
      rw [if_neg hkept, if_neg hkept]
      rw [Sights.all, List.flatMap_cons] at h ⊢
      have henter := enter_eq fun failure hmem =>
        h failure (List.mem_append_right _ (List.mem_append_left _ hmem))
      rw [henter] at h ⊢
      have hinside := (Sights.perm_all _).trans
        (ihInside (Path.join path name) (below ++ name ++ ['/']) fun failure hmem =>
          h failure (List.mem_append_right _ (List.mem_append_left _
            ((Sights.perm_all _).mem_iff.mpr hmem))))
      have hrest := ih path below fun failure hmem =>
        h failure ((List.perm_append_comm_assoc _ _ _).mem_iff.mpr (List.mem_append_right _ hmem))
      rw [List.map_append]
      refine (List.perm_append_comm_assoc _ _ _).trans ?_
      exact hinside.append hrest

/-- What a survey keeps of a walk that is not blocked are the findings of the plain recursion. -/
theorem perm_walk {top : Text} (h : (Survey.ofSights (s.walk top f)).failure = none) :
    (Survey.ofSights (s.walk top f)).findings.Perm (s.met top [] f) := by
  have hfound := Survey.eq_map_found h
  have hperm := s.perm_met top [] f ?_
  · refine (List.map_perm_map_iff fun _ _ => Sight.found.inj).mp ?_
    rw [← hfound]
    exact (Sights.perm_all _).trans hperm
  · intro failure hmem
    have hmem : .blocked failure ∈ s.walk top f := (Sights.perm_all _).mem_iff.mpr hmem
    rw [hfound] at hmem
    simp at hmem

/-- What makes an entry below a folder a finding of a walk: no part of its name is hidden, it is no
folder and no link to one, the pattern chooses it, and each folder on the way is entered. -/
structure Finds (s : Search) (path below : Text) (f : Folder) (x : Finding) (names : List Text) :
    Prop where
  path_eq : x.path = below ++ ['/'].intercalate names
  ignored_eq : x.ignored = s.excludes (Path.joinAll path names) false
  entry : (∃ content, f.node? names = some (.file content)) ∨
    (∃ target, f.node? names = some (.link target)) ∧
      s.disk.isFolder (Path.joinAll path names) = false
  visible : ∀ name ∈ names, isHidden name = false
  chosen : Rule.verdict s.chosen x.path = true
  entered : ∀ front behind, names = front ++ behind → front ≠ [] → behind ≠ [] →
    s.excludes (Path.joinAll path front) true = false

variable {path below name : Text} {rest inside : Folder} {e : Entry} {x : Finding}
  {names more : List Text}

namespace Finds

theorem node?_ne_none (h : s.Finds path below f x names) : f.node? names ≠ none := by
  rcases h.entry with ⟨_, hnode⟩ | ⟨⟨_, hnode⟩, -⟩ <;> rw [hnode] <;> simp

theorem node?_ne_folder (h : s.Finds path below f x names) : f.node? names ≠ some .folder := by
  rcases h.entry with ⟨_, hnode⟩ | ⟨⟨_, hnode⟩, -⟩ <;> rw [hnode] <;> simp

theorem ne_nil (h : s.Finds path below f x names) : names ≠ [] := by
  rintro rfl
  exact h.node?_ne_folder rfl

theorem head_mem (h : s.Finds path below f x names) :
    ∃ first more, names = first :: more ∧ first ∈ f.names := by
  obtain ⟨first, more, rfl⟩ := List.exists_cons_of_ne_nil h.ne_nil
  refine ⟨first, more, rfl, ?_⟩
  have hnode := h.node?_ne_none
  rw [Folder.node?, Folder.get?] at hnode
  split at hnode
  · exact Folder.mem_names_of_find? ‹_›
  · exact Folder.mem_names_of_find? ‹_›
  · exact (hnode rfl).elim

/-- The path of a finding tells its names. -/
theorem splitOn_eq (h : s.Finds path below f x names) (hf : f.Proper) {p : Text}
    (hpath : x.path = below ++ p) : p.splitOn '/' = names := by
  have hnames := hf.isName_of_node? h.node?_ne_none
  rw [h.path_eq] at hpath
  rw [← List.append_cancel_left hpath]
  apply List.splitOn_intercalate '/' ?_ h.ne_nil
  intro n hn
  exact (hnames n hn).no_slash

end Finds

/-- Behind the first entry, findings are those of the other entries. -/
theorem finds_cons_of_ne {first : Text} (hne : name ≠ first) :
    s.Finds path below (.cons name e rest) x (first :: more) ↔
      s.Finds path below rest x (first :: more) := by
  have hnode : (Folder.cons name e rest).node? (first :: more) = rest.node? (first :: more) :=
    Folder.node?_cons_congr (by rw [Folder.find?_cons, if_neg hne]) more
  constructor
  · rintro ⟨hpath, hignored, hentry, hvisible, hchosen, hentered⟩
    exact ⟨hpath, hignored, by rwa [hnode] at hentry, hvisible, hchosen, hentered⟩
  · rintro ⟨hpath, hignored, hentry, hvisible, hchosen, hentered⟩
    exact ⟨hpath, hignored, by rwa [hnode], hvisible, hchosen, hentered⟩

/-- The findings among some entries are those at the first entry and those among the others. -/
theorem exists_finds_cons_iff (hnew : name ∉ rest.names) :
    (∃ names, s.Finds path below (.cons name e rest) x names) ↔
      (∃ more, s.Finds path below (.cons name e rest) x (name :: more)) ∨
        ∃ names, s.Finds path below rest x names := by
  constructor
  · rintro ⟨names, h⟩
    obtain ⟨first, more, rfl, -⟩ := h.head_mem
    by_cases hfirst : name = first
    · exact .inl ⟨more, hfirst ▸ h⟩
    · exact .inr ⟨_, (finds_cons_of_ne hfirst).mp h⟩
  · rintro (⟨more, h⟩ | ⟨names, h⟩)
    · exact ⟨_, h⟩
    · obtain ⟨first, more, rfl, hmem⟩ := h.head_mem
      have hfirst : name ≠ first := fun hname => hnew (hname ▸ hmem)
      exact ⟨_, (finds_cons_of_ne hfirst).mpr h⟩

theorem mem_finding_iff {found : Text} :
    x ∈ s.finding name path found ↔ isHidden name = false ∧ Rule.verdict s.chosen found = true ∧
      x.path = found ∧ x.ignored = s.excludes path false := by
  unfold finding
  split
  · rename_i h
    rw [Bool.and_eq_true, Bool.not_eq_true'] at h
    obtain ⟨p, ignored⟩ := x
    simp [h]
  · rename_i h
    rw [Bool.and_eq_true, Bool.not_eq_true'] at h
    simp only [List.not_mem_nil, false_iff]
    tauto

/-- The findings at a first entry that is no folder. -/
theorem exists_finds_cons_leaf_iff (he : e.node ≠ .folder) :
    (∃ more, s.Finds path below (.cons name e rest) x (name :: more)) ↔
      ((∀ target, e ≠ .link target) ∨ s.disk.isFolder (Path.join path name) = false) ∧
        x ∈ s.finding name (Path.join path name) (below ++ name) := by
  have hnode : (Folder.cons name e rest).node? [name] = some e.node := by
    rw [Folder.node?_singleton, Folder.find?_cons, if_pos rfl]
    rfl
  rw [mem_finding_iff]
  constructor
  · rintro ⟨more, h⟩
    -- nothing stands below an entry that is no folder
    have hmore : more = [] := by
      by_contra hne
      apply h.node?_ne_none
      apply Folder.node?_cons_of_not_folder ?_ hne
      intro inside
      rw [Folder.find?_cons, if_pos rfl]
      rintro hinside
      exact he (Entry.node_eq_folder_iff.mpr ⟨inside, Option.some.inj hinside⟩)
    subst hmore
    have hpath := h.path_eq
    rw [List.intercalate_singleton] at hpath
    refine ⟨?_, h.visible name List.mem_cons_self, hpath ▸ h.chosen, hpath, h.ignored_eq⟩
    rcases h.entry with ⟨content, hfile⟩ | ⟨-, hlink⟩
    · refine .inl ?_
      rintro target rfl
      rw [hnode] at hfile
      cases hfile
    · exact .inr hlink
  · rintro ⟨hentry, hvisible, hchosen, hpath, hignored⟩
    refine ⟨[], by rw [hpath, List.intercalate_singleton], hignored, ?_, by simpa, by rwa [hpath], ?_⟩
    · rw [hnode]
      cases e with
      | file content => exact .inl ⟨content, rfl⟩
      | link target => exact .inr ⟨⟨target, rfl⟩, hentry.resolve_left fun h => h target rfl⟩
      | folder _ => exact (he rfl).elim
    · intro front behind hnames hfront hbehind
      rcases front with _ | ⟨first, front⟩
      · exact (hfront rfl).elim
      · simp_all

/-- The findings below a first entry that is a folder. -/
theorem exists_finds_cons_folder_iff :
    (∃ more, s.Finds path below (.cons name (.folder inside) rest) x (name :: more)) ↔
      (isHidden name = false ∧ s.excludes (Path.join path name) true = false) ∧
        ∃ names, s.Finds (Path.join path name) (below ++ name ++ ['/']) inside x names := by
  have hnode : ∀ more, (Folder.cons name (.folder inside) rest).node? (name :: more) =
      inside.node? more :=
    Folder.node?_cons_of_folder (by rw [Folder.find?_cons, if_pos rfl])
  have hpath : ∀ {more : List Text}, more ≠ [] → below ++ ['/'].intercalate (name :: more) =
      below ++ name ++ ['/'] ++ ['/'].intercalate more := by
    intro more hmore
    rw [List.intercalate_cons_of_ne_nil hmore]
    simp
  constructor
  · rintro ⟨more, h⟩
    have hmore : more ≠ [] := by
      rintro rfl
      exact h.node?_ne_folder (by rw [hnode]; rfl)
    refine ⟨⟨h.visible name List.mem_cons_self, h.entered [name] more rfl (by simp) hmore⟩, more,
      by rw [h.path_eq, hpath hmore], h.ignored_eq, ?_,
      fun n hn => h.visible n (List.mem_cons_of_mem _ hn), h.chosen, ?_⟩
    · have hentry := h.entry
      rwa [hnode] at hentry
    · intro front behind hnames _ hbehind
      exact h.entered (name :: front) behind (by rw [hnames]; rfl) (by simp) hbehind
  · rintro ⟨⟨hvisible, hentered⟩, more, h⟩
    refine ⟨more, by rw [h.path_eq, hpath h.ne_nil], h.ignored_eq, ?_, ?_, h.chosen, ?_⟩
    · rw [hnode]
      exact h.entry
    · intro n hn
      rcases List.mem_cons.mp hn with rfl | hn
      · exact hvisible
      · exact h.visible n hn
    · intro front behind hnames hfront hbehind
      obtain ⟨first, front, rfl⟩ := List.exists_cons_of_ne_nil hfront
      rw [List.cons_append, List.cons.injEq] at hnames
      obtain ⟨rfl, hnames⟩ := hnames
      by_cases hnil : front = []
      · rw [hnil]
        exact hentered
      · exact h.entered front behind hnames hnil hbehind

/-- **The plain recursion meets exactly the entries that are findings.** -/
theorem mem_met_iff (hf : f.Proper) :
    x ∈ s.met path below f ↔ ∃ names, s.Finds path below f x names := by
  induction f generalizing path below with
  | empty =>
    simp only [met, List.not_mem_nil, false_iff, not_exists]
    intro names h
    obtain ⟨first, more, -, hmem⟩ := h.head_mem
    cases hmem
  | file name content rest ih =>
    have hhere : (∃ more, s.Finds path below (.cons name (.file content) rest) x (name :: more)) ↔
        x ∈ s.finding name (Path.join path name) (below ++ name) := by
      rw [exists_finds_cons_leaf_iff (by simp [Entry.node])]
      simp
    rw [met, List.mem_append, ih hf.2.2, ← hhere]
    exact (exists_finds_cons_iff hf.2.1).symm
  | link name target rest ih =>
    have hhere : (∃ more, s.Finds path below (.cons name (.link target) rest) x (name :: more)) ↔
        s.disk.isFolder (Path.join path name) = false ∧
          x ∈ s.finding name (Path.join path name) (below ++ name) := by
      rw [exists_finds_cons_leaf_iff (by simp [Entry.node])]
      simp
    refine Iff.trans ?_ (exists_finds_cons_iff (e := .link target) hf.2.1).symm
    rw [hhere, met, ← ih hf.2.2]
    split
    · rename_i h
      simp only [h, Bool.true_eq_false, false_and, false_or]
    · rename_i h
      rw [Bool.not_eq_true] at h
      simp only [h, true_and, List.mem_append]
  | folder name inside rest ihInside ih =>
    have hhere : (∃ more, s.Finds path below (.cons name (.folder inside) rest) x (name :: more)) ↔
        (isHidden name || s.excludes (Path.join path name) true) = false ∧
          x ∈ s.met (Path.join path name) (below ++ name ++ ['/']) inside := by
      rw [exists_finds_cons_folder_iff, ihInside hf.2.2.2, Bool.or_eq_false_iff]
    refine Iff.trans ?_ (exists_finds_cons_iff (e := .folder inside) hf.2.1).symm
    rw [hhere, met, ← ih hf.2.2.1]
    split
    · rename_i h
      simp only [h, Bool.true_eq_false, false_and, false_or]
    · rename_i h
      rw [Bool.not_eq_true] at h
      simp only [h, true_and, List.mem_append]

theorem apart_finding (s : Search) (name path found : Text) :
    (s.finding name path found).Pairwise (·.path ≠ ·.path) := by
  unfold finding
  split
  · exact List.pairwise_singleton _ _
  · exact .nil

/-- A finding behind the first entry has another path than one in that entry. -/
theorem path_ne {y : Finding} (hf : (Folder.cons name e rest).Proper) (hnew : name ∉ rest.names)
    (hx : s.Finds path below (.cons name e rest) x (name :: more))
    (hy : s.Finds path below rest y names) : x.path ≠ y.path := by
  intro heq
  obtain ⟨first, tail, rfl, hmem⟩ := hy.head_mem
  have hfirst : name ≠ first := fun hname => hnew (hname ▸ hmem)
  have hxnames := hx.splitOn_eq hf hx.path_eq
  have hynames := ((finds_cons_of_ne hfirst).mpr hy).splitOn_eq hf (heq ▸ hx.path_eq)
  rw [hxnames] at hynames
  exact hfirst (List.cons.inj hynames).1

/-- **No two findings have the same path.** -/
theorem apart_met (hf : f.Proper) (path below : Text) :
    (s.met path below f).Pairwise (·.path ≠ ·.path) := by
  induction f generalizing path below with
  | empty => exact .nil
  | file name content rest ih =>
    rw [met]
    refine List.pairwise_append.mpr ⟨s.apart_finding _ _ _, ih hf.2.2 path below, ?_⟩
    intro x hx y hy
    obtain ⟨names, hnames⟩ := (mem_met_iff hf.2.2).mp hy
    have hhere : ∃ more, s.Finds path below (.cons name (.file content) rest) x (name :: more) :=
      (exists_finds_cons_leaf_iff (by simp [Entry.node])).mpr ⟨.inl (by simp), hx⟩
    obtain ⟨more, hmore⟩ := hhere
    exact path_ne (e := .file content) hf hf.2.1 hmore hnames
  | link name target rest ih =>
    rw [met]
    split
    · exact ih hf.2.2 path below
    · rename_i hlink
      rw [Bool.not_eq_true] at hlink
      refine List.pairwise_append.mpr ⟨s.apart_finding _ _ _, ih hf.2.2 path below, ?_⟩
      intro x hx y hy
      obtain ⟨names, hnames⟩ := (mem_met_iff hf.2.2).mp hy
      have hhere : ∃ more, s.Finds path below (.cons name (.link target) rest) x (name :: more) :=
        (exists_finds_cons_leaf_iff (by simp [Entry.node])).mpr ⟨.inr hlink, hx⟩
      obtain ⟨more, hmore⟩ := hhere
      exact path_ne (e := .link target) hf hf.2.1 hmore hnames
  | folder name inside rest ihInside ih =>
    rw [met]
    split
    · exact ih hf.2.2.1 path below
    · rename_i hentered
      rw [Bool.not_eq_true, Bool.or_eq_false_iff] at hentered
      refine List.pairwise_append.mpr ⟨ihInside hf.2.2.2 _ _, ih hf.2.2.1 path below, ?_⟩
      intro x hx y hy
      obtain ⟨names, hnames⟩ := (mem_met_iff hf.2.2.1).mp hy
      have hhere : ∃ more, s.Finds path below (.cons name (.folder inside) rest) x (name :: more) :=
        exists_finds_cons_folder_iff.mpr ⟨hentered, (mem_met_iff hf.2.2.2).mp hx⟩
      obtain ⟨more, hmore⟩ := hhere
      exact path_ne (e := .folder inside) hf hf.2.1 hmore hnames

end Search

end Discovery

open Discovery

variable {d : Disk} {root pattern : Text} {respectIgnore : Bool}

/-- A discovery whose root stands for a folder walks through it, by the rules of its pattern and of the
nearest ignore file. -/
theorem discover_eq_result {inside : Folder} {chosen : List Rule} {ignored : Option IgnoreRules}
    (hroot : d.isFolder root = true) (hchosen : readPattern pattern = .ok chosen)
    (hignored : (if respectIgnore then IgnoreRules.load d (Path.absolute d.cwdPath root)
      else .ok none) = .ok ignored)
    (hlist : d.list (Path.absolute d.cwdPath root) = .ok inside) :
    discover d root pattern respectIgnore = (Survey.ofSights ((⟨d, chosen, ignored⟩ : Search).walk
      (Path.absolute d.cwdPath root) inside)).result := by
  rw [discover, survey, if_neg (by simp [hroot])]
  simp only [hchosen, hignored, listFolder_eq_ok_iff.mpr hlist]

/-- **A discovery gives lessons exactly if there is a folder to walk through, and the walk does.** -/
theorem discover_eq_ok_iff {found : List Text} :
    discover d root pattern respectIgnore = .ok found ↔
      d.isFolder root = true ∧ ∃ chosen ignored inside, readPattern pattern = .ok chosen ∧
        (if respectIgnore then IgnoreRules.load d (Path.absolute d.cwdPath root) else .ok none) =
          .ok ignored ∧
        d.list (Path.absolute d.cwdPath root) = .ok inside ∧
        (Survey.ofSights ((⟨d, chosen, ignored⟩ : Search).walk (Path.absolute d.cwdPath root)
          inside)).result = .ok found := by
  constructor
  · intro h
    unfold discover survey at h
    split at h
    · cases h
    · rename_i hfolder
      dsimp only at h
      split at h
      · cases h
      · rename_i chosen hchosen
        split at h
        · cases h
        · rename_i ignored hignored
          split at h
          · cases h
          · rename_i inside hlist
            exact ⟨by simpa using hfolder, chosen, ignored, inside, hchosen, hignored,
              listFolder_eq_ok_iff.mp hlist, h⟩
  · rintro ⟨hfolder, chosen, ignored, inside, hchosen, hignored, hlist, h⟩
    rw [discover_eq_result hfolder hchosen hignored hlist, h]

section Walk

variable {s : Search} {top lesson : Text} {inside : Folder} {found : List Text}

/-- A lesson is one of the findings of the plain recursion. -/
theorem mem_result_walk (h : (Survey.ofSights (s.walk top inside)).result = .ok found) :
    lesson ∈ found ↔ (⟨lesson, false⟩ : Finding) ∈ s.met top [] inside := by
  obtain ⟨hwhole, rfl⟩ := Survey.result_eq_ok_iff.mp h
  unfold Discovery.lessons
  rw [(perm_sortBy id _).mem_iff, List.mem_map, ← (Search.perm_walk hwhole).mem_iff]
  constructor
  · rintro ⟨⟨path, ignored⟩, hx, rfl⟩
    obtain ⟨hmem, hignored⟩ := List.mem_filter.mp hx
    obtain rfl : ignored = false := by simpa using hignored
    exact hmem
  · intro hmem
    exact ⟨_, List.mem_filter.mpr ⟨hmem, rfl⟩, rfl⟩

theorem nodup_result_walk (hinside : inside.Proper)
    (h : (Survey.ofSights (s.walk top inside)).result = .ok found) : found.Nodup := by
  obtain ⟨hwhole, rfl⟩ := Survey.result_eq_ok_iff.mp h
  have hapart := (s.apart_met hinside top []).perm (Search.perm_walk hwhole).symm fun hne => hne.symm
  exact (perm_sortBy id _).nodup_iff.mpr (List.pairwise_map.mpr (hapart.filter _))

end Walk

/-- The parts of a lesson's name are names of entries, and none of them is hidden. -/
theorem discover_names (hd : d.root.Proper) {lessons : List Text}
    (h : discover d root pattern respectIgnore = .ok lessons) :
    ∀ lesson ∈ lessons, ∀ part ∈ lesson.splitOn '/', IsName part ∧ isHidden part = false := by
  obtain ⟨-, chosen, ignored, inside, -, -, hlist, hfound⟩ := discover_eq_ok_iff.mp h
  have hproper := Disk.proper_of_list hd hlist
  intro lesson hlesson part hpart
  obtain ⟨names, hnames⟩ := (Search.mem_met_iff hproper).mp ((mem_result_walk hfound).mp hlesson)
  rw [hnames.splitOn_eq hproper (List.nil_append _).symm] at hpart
  exact ⟨hproper.isName_of_node? hnames.node?_ne_none part hpart, hnames.visible part hpart⟩

/-- **Without links, a discovery gives each lesson once, and each is a file below its folder.** -/
theorem discover_eq_ok (hd : d.Plain) {sources : List Text}
    (h : discover d root pattern respectIgnore = .ok sources) :
    d.isFolder root = true ∧ sources.Nodup ∧ ∀ lesson ∈ sources,
      (∀ part ∈ lesson.splitOn '/', IsName part ∧ isHidden part = false) ∧
      ∃ content, d.root.node? (d.target root ++ lesson.splitOn '/') = some (.file content) := by
  obtain ⟨hfolder, chosen, ignored, inside, -, -, hlist, hfound⟩ := discover_eq_ok_iff.mp h
  obtain ⟨-, place, hlocate, hget⟩ := Disk.list_eq_ok hlist
  have hproper := hd.proper.get? hget
  refine ⟨hfolder, nodup_result_walk hproper hfound, ?_⟩
  intro lesson hlesson
  refine ⟨discover_names hd.proper h lesson hlesson, ?_⟩
  obtain ⟨names, hnames⟩ := (Search.mem_met_iff hproper).mp ((mem_result_walk hfound).mp hlesson)
  have hleads := (Disk.locate_eq_ok_iff hd.linkless .look).mp hlocate
  rw [hnames.splitOn_eq hproper (List.nil_append _).symm, ← Disk.target_absolute hd.cwd,
    ← hleads.names_eq hd, Folder.node?_append hget]
  cases hnode : inside.node? names with
  | none => exact (hnames.node?_ne_none hnode).elim
  | some node =>
    cases node with
    | file content => exact ⟨content, rfl⟩
    | link target => exact ((hd.linkless.get? hget).node?_ne_link names target hnode).elim
    | folder => exact (hnames.node?_ne_folder hnode).elim

end LessonPages
