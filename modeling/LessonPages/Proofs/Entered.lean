import LessonPages.Proofs.Findings
import LessonPages.Proofs.Normal
import LessonPages.Proofs.Rules

/-!
# The folders that a walk enters

A walk enters the folder that it starts from and, below each folder that it enters, those folders whose
names are not hidden and which no rule excludes. It has to list each of them, by its path from the root
of the disk, and fails at the first one whose path is too long for that. First is what comes first in
the order of the names, a folder before those in it.

* `Search.Enters` — the folders that a walk enters; `Search.failure_entering_eq_some_iff` — it fails as
  the first of them does that cannot be listed.
* `IsEntered`, `StopsAt` — the same by what stands on the disk and what the rules say.
* `discover_eq_error_iff`, `exists_discover_iff` — when a discovery from a folder fails, and when it does
  not.
* `deepDisk` — a disk with a path that is too long.
-/

namespace LessonPages

open Discovery

/-! ## Sorting -/

theorem pairwise_insertBy {α : Type} (key : α → Text) (a : α) {as : List α}
    (h : as.Pairwise fun a b => ¬ key b < key a) :
    (insertBy key a as).Pairwise fun a b => ¬ key b < key a := by
  induction as with
  | nil => exact List.pairwise_singleton _ _
  | cons b rest ih =>
    obtain ⟨hb, hrest⟩ := List.pairwise_cons.mp h
    rw [insertBy]
    split
    · rename_i hlt
      refine List.pairwise_cons.mpr ⟨?_, ih hrest⟩
      intro c hc
      rcases List.mem_cons.mp ((perm_insertBy key a rest).mem_iff.mp hc) with rfl | hc
      · exact List.not_lt.mpr (List.le_of_lt hlt)
      · exact hb c hc
    · rename_i hlt
      refine List.pairwise_cons.mpr ⟨?_, h⟩
      rintro c (_ | ⟨_, hc⟩)
      · exact hlt
      · exact List.not_lt.mpr (List.le_trans (List.not_lt.mp hlt) (List.not_lt.mp (hb c hc)))

/-- Sorting puts elements in the order of their keys. -/
theorem pairwise_sortBy {α : Type} (key : α → Text) (as : List α) :
    (sortBy key as).Pairwise fun a b => ¬ key b < key a := by
  induction as with
  | nil => exact .nil
  | cons a rest ih => exact pairwise_insertBy key a ih

/-- Where no two keys are the same, they ascend. -/
theorem pairwise_lt_sortBy {α : Type} {key : α → Text} {as : List α} (h : (as.map key).Nodup) :
    (sortBy key as).Pairwise fun a b => key a < key b := by
  have hnodup := ((perm_sortBy key as).map key).nodup_iff.mpr h
  refine ((pairwise_sortBy key as).and (List.pairwise_map.mp hnodup)).imp ?_
  rintro a b ⟨hle, hne⟩
  by_contra hlt
  exact hne (List.le_antisymm (List.not_lt.mp hle) (List.not_lt.mp hlt))

/-- In a list whose keys ascend, the first hit is the one with the least key. -/
theorem findSome?_eq_some_iff {α β : Type} {key : α → Text} {g : α → Option β} {as : List α} {b : β}
    (h : as.Pairwise fun a b => key a < key b) :
    as.findSome? g = some b ↔
      ∃ a ∈ as, g a = some b ∧ ∀ other ∈ as, key other < key a → g other = none := by
  induction as with
  | nil => simp
  | cons first rest ih =>
    obtain ⟨hfirst, hrest⟩ := List.pairwise_cons.mp h
    rw [List.findSome?_cons]
    cases hg : g first with
    | some hit =>
      constructor
      · rintro ⟨⟩
        refine ⟨first, List.mem_cons_self, hg, ?_⟩
        rintro other (_ | ⟨_, hother⟩) hlt
        · exact (List.lt_irrefl _ hlt).elim
        · exact (List.lt_asymm hlt (hfirst other hother)).elim
      · rintro ⟨a, ha, hhit, hleast⟩
        rcases List.mem_cons.mp ha with rfl | ha
        · exact hg.symm.trans hhit
        · have hnone := hleast first List.mem_cons_self (hfirst a ha)
          rw [hg] at hnone
          cases hnone
    | none =>
      refine (ih hrest).trans ⟨?_, ?_⟩
      · rintro ⟨a, ha, hhit, hleast⟩
        refine ⟨a, List.mem_cons_of_mem _ ha, hhit, ?_⟩
        rintro other (_ | ⟨_, hother⟩) hlt
        · exact hg
        · exact hleast other hother hlt
      · rintro ⟨a, ha, hhit, hleast⟩
        rcases List.mem_cons.mp ha with rfl | ha
        · rw [hg] at hhit
          cases hhit
        · exact ⟨a, ha, hhit, fun other hother => hleast other (List.mem_cons_of_mem _ hother)⟩

namespace Discovery

/-! ## Where a walk fails -/

/-- The failure that a walk comes upon, if it is one. -/
def Sight.failure? : Sight → Option Failure
  | .found _ => none
  | .blocked failure => some failure

/-- A discovery fails at the first folder of its walk that cannot be listed. -/
theorem Survey.failure_ofSights (sights : List Sight) :
    (ofSights sights).failure = sights.findSome? Sight.failure? := by
  induction sights with
  | nil => rfl
  | cons sight rest ih =>
    cases sight with
    | found _ => exact ih
    | blocked _ => rfl

/-- The files of a folder do not block a walk, and the folders in it are taken by their names. -/
theorem Sights.failure_inOrder (f : Sights) : (Survey.ofSights f.inOrder).failure =
    (sortBy (·.1) f.below).findSome? fun p => (Survey.ofSights p.2).failure := by
  have hown : (f.own.map Sight.found).findSome? Sight.failure? = none := by
    simp [List.findSome?_map, Function.comp_def, Sight.failure?]
  simp only [Survey.failure_ofSights]
  rw [inOrder, List.findSome?_append, hown, Option.none_or]
  induction sortBy (·.1) f.below with
  | nil => rfl
  | cons p rest ih =>
    rw [List.flatMap_cons, List.findSome?_append, List.findSome?_cons, ih]
    cases p.2.findSome? Sight.failure? <;> rfl

namespace Search

variable {s : Search} {path below name : Text} {f inside : Folder} {names more : List Text}
  {failure : Failure}

/-- What a walk comes upon when it enters a folder and goes on from there. -/
def entering (s : Search) (path below : Text) (f : Folder) : List Sight :=
  s.enter path (s.visit path below f)

theorem names_below_visit (s : Search) (path below : Text) (f : Folder) :
    ((s.visit path below f).below.map (·.1)).Sublist f.names := by
  induction f generalizing path below with
  | empty => exact .slnil
  | file name _ rest ih =>
    rw [visit]
    exact (ih path below).cons name
  | link name _ rest ih =>
    rw [visit]
    split <;> exact (ih path below).cons name
  | folder name inside rest _ ih =>
    rw [visit]
    split
    · exact (ih path below).cons name
    · exact (ih path below).cons_cons name

/-- Below a folder, a walk enters the folders in it that are not hidden and not excluded. -/
theorem mem_below_visit_iff (hf : f.Proper) {seen : List Sight} :
    (name, seen) ∈ (s.visit path below f).below ↔ ∃ inside, f.find? name = some (.folder inside) ∧
      isHidden name = false ∧ s.excludes (Path.join path name) true = false ∧
      seen = s.entering (Path.join path name) (below ++ name ++ ['/']) inside := by
  induction f generalizing path below with
  | empty => simp [visit, Folder.find?]
  | file n content rest ih =>
    have hfind : ∀ inside, (Folder.file n content rest).find? name = some (.folder inside) ↔
        rest.find? name = some (.folder inside) :=
      fun inside => Folder.find?_cons_leaf (e := .file content) (by simp [Entry.node]) hf.2.1
    simp only [hfind]
    rw [visit]
    exact ih hf.2.2
  | link n target rest ih =>
    have hfind : ∀ inside, (Folder.link n target rest).find? name = some (.folder inside) ↔
        rest.find? name = some (.folder inside) :=
      fun inside => Folder.find?_cons_leaf (e := .link target) (by simp [Entry.node]) hf.2.1
    simp only [hfind]
    rw [visit]
    split <;> exact ih hf.2.2
  | folder n other rest _ ih =>
    have hrest : n = name → ∀ inside, rest.find? name ≠ some (.folder inside) := by
      rintro rfl inside hfound
      exact hf.2.1 (Folder.mem_names_of_find? hfound)
    rw [visit]
    by_cases hname : n = name
    · subst hname
      simp only [Folder.find?, if_true, Option.some.injEq, Entry.folder.injEq]
      have hnot : (n, seen) ∉ (s.visit path below rest).below := by
        intro hmem
        obtain ⟨inside, hfound, -⟩ := (ih hf.2.2.1).mp hmem
        exact hrest rfl inside hfound
      split
      · rename_i hkept
        simp only [hnot, false_iff]
        rintro ⟨inside, rfl, hvisible, hexcludes, -⟩
        simp [hvisible, hexcludes] at hkept
      · rename_i hkept
        rw [Bool.not_eq_true, Bool.or_eq_false_iff] at hkept
        simp [hnot, hkept, entering]
    · simp only [Folder.find?, if_neg hname]
      split
      · exact ih hf.2.2.1
      · rw [List.mem_cons, ih hf.2.2.1]
        simp [Ne.symm hname]

/-- The folders that a walk enters, by their names from the folder that it starts from: that folder,
which has no names, and each folder in a folder that is entered, if its name is not hidden and nothing
excludes it. -/
inductive Enters (s : Search) : Text → Folder → List Text → Prop where
  | here {path : Text} {f : Folder} : Enters s path f []
  | into {path name : Text} {f inside : Folder} {more : List Text}
      (hfound : f.find? name = some (.folder inside)) (hvisible : isHidden name = false)
      (hkept : s.excludes (Path.join path name) true = false) :
      Enters s (Path.join path name) inside more → Enters s path f (name :: more)

/-- A walk fails below a folder exactly if it fails in one of those folders in it that it enters, and then
as it does in the first of them, by their names. -/
theorem failure_visit_iff (hf : f.Proper) :
    (Survey.ofSights (s.visit path below f).inOrder).failure = some failure ↔
      ∃ name inside, f.find? name = some (.folder inside) ∧ isHidden name = false ∧
        s.excludes (Path.join path name) true = false ∧
        (Survey.ofSights (s.entering (Path.join path name) (below ++ name ++ ['/']) inside)).failure =
          some failure ∧
        ∀ other inside, f.find? other = some (.folder inside) → isHidden other = false →
          s.excludes (Path.join path other) true = false → other < name →
          (Survey.ofSights (s.entering (Path.join path other) (below ++ other ++ ['/'])
            inside)).failure = none := by
  have hperm := perm_sortBy (·.1) (s.visit path below f).below
  have hsorted : (sortBy (·.1) (s.visit path below f).below).Pairwise fun a b => a.1 < b.1 :=
    pairwise_lt_sortBy ((s.names_below_visit path below f).nodup hf.nodup_names)
  rw [Sights.failure_inOrder, findSome?_eq_some_iff hsorted]
  simp only [hperm.mem_iff, Prod.exists, Prod.forall]
  constructor
  · rintro ⟨name, seen, hmem, hfails, hfirst⟩
    obtain ⟨inside, hfound, hvisible, hkept, rfl⟩ := (mem_below_visit_iff hf).mp hmem
    refine ⟨name, inside, hfound, hvisible, hkept, hfails, ?_⟩
    intro other inside hfound hvisible hkept
    exact hfirst other _ ((mem_below_visit_iff hf).mpr ⟨inside, hfound, hvisible, hkept, rfl⟩)
  · rintro ⟨name, inside, hfound, hvisible, hkept, hfails, hfirst⟩
    refine ⟨name, _, (mem_below_visit_iff hf).mpr ⟨inside, hfound, hvisible, hkept, rfl⟩, hfails, ?_⟩
    intro other seen hmem
    obtain ⟨inside, hfound, hvisible, hkept, rfl⟩ := (mem_below_visit_iff hf).mp hmem
    exact hfirst other inside hfound hvisible hkept

theorem failure_visit_eq_none_iff (hf : f.Proper) :
    (Survey.ofSights (s.visit path below f).inOrder).failure = none ↔
      ∀ name inside, f.find? name = some (.folder inside) → isHidden name = false →
        s.excludes (Path.join path name) true = false →
        (Survey.ofSights (s.entering (Path.join path name) (below ++ name ++ ['/'])
          inside)).failure = none := by
  rw [Sights.failure_inOrder, List.findSome?_eq_none_iff]
  simp only [(perm_sortBy (·.1) (s.visit path below f).below).mem_iff, Prod.forall]
  constructor
  · intro h name inside hfound hvisible hkept
    exact h name _ ((mem_below_visit_iff hf).mpr ⟨inside, hfound, hvisible, hkept, rfl⟩)
  · intro h name seen hmem
    obtain ⟨inside, hfound, hvisible, hkept, rfl⟩ := (mem_below_visit_iff hf).mp hmem
    exact h name inside hfound hvisible hkept

theorem failure_entering_of_error (h : listFolder s.disk path = .error failure) :
    (Survey.ofSights (s.entering path below f)).failure = some failure := by
  simp only [entering, enter, h]
  rfl

theorem failure_entering_of_ok (h : listFolder s.disk path = .ok inside) :
    (Survey.ofSights (s.entering path below f)).failure =
      (Survey.ofSights (s.visit path below f).inOrder).failure := by
  simp only [entering, enter, h]

/-- The folder whose names these are is listed by its path from the folder that a walk starts from. -/
def Lists (s : Search) (path : Text) (names : List Text) : Prop :=
  ∃ inside, listFolder s.disk (Path.joinAll path names) = .ok inside

/-- **A walk does not fail exactly if each folder that it enters can be listed.** -/
theorem failure_entering_eq_none_iff (hf : f.Proper) :
    (Survey.ofSights (s.entering path below f)).failure = none ↔
      ∀ names, s.Enters path f names → s.Lists path names := by
  induction f using Folder.induction_inside generalizing path below with
  | h f ih =>
    cases hlist : listFolder s.disk path with
    | error fault =>
      rw [failure_entering_of_error hlist]
      constructor
      · rintro ⟨⟩
      · intro h
        obtain ⟨inside, hinside⟩ := h [] .here
        cases hlist.symm.trans hinside
    | ok there =>
      rw [failure_entering_of_ok hlist, failure_visit_eq_none_iff hf]
      constructor
      · rintro h names (_ | ⟨hfound, hvisible, hkept, hmore⟩)
        · exact ⟨there, hlist⟩
        · exact (ih _ _ hfound (hf.find? hfound)).mp (h _ _ hfound hvisible hkept) _ hmore
      · intro h name inside hfound hvisible hkept
        refine (ih name inside hfound (hf.find? hfound)).mpr fun more hmore => ?_
        exact h (name :: more) (.into hfound hvisible hkept hmore)

/-- **A walk fails as the folder does which comes first, in the order of the names, among those that it
enters and that cannot be listed.** -/
theorem failure_entering_eq_some_iff (hf : f.Proper) :
    (Survey.ofSights (s.entering path below f)).failure = some failure ↔
      ∃ names, s.Enters path f names ∧ listFolder s.disk (Path.joinAll path names) = .error failure ∧
        ∀ other, s.Enters path f other → other < names → s.Lists path other := by
  induction f using Folder.induction_inside generalizing path below with
  | h f ih =>
    cases hlist : listFolder s.disk path with
    | error fault =>
      rw [failure_entering_of_error hlist]
      constructor
      · rintro ⟨⟩
        exact ⟨[], .here, hlist, fun other _ hlt => (List.not_lt_nil other hlt).elim⟩
      · rintro ⟨_ | ⟨name, more⟩, hnames, hfails, hfirst⟩
        · exact congrArg some (Except.error.inj (hlist.symm.trans hfails))
        · obtain ⟨inside, hinside⟩ := hfirst [] .here (List.nil_lt_cons name more)
          cases hlist.symm.trans hinside
    | ok there =>
      rw [failure_entering_of_ok hlist, failure_visit_iff hf]
      constructor
      · rintro ⟨name, inside, hfound, hvisible, hkept, hfails, hfirst⟩
        obtain ⟨more, hmore, hlists, hleast⟩ := (ih name inside hfound (hf.find? hfound)).mp hfails
        refine ⟨name :: more, .into hfound hvisible hkept hmore, hlists, ?_⟩
        rintro other (_ | @⟨_, other, _, inside', more', hfound', hvisible', hkept', hmore'⟩) hlt
        · exact ⟨there, hlist⟩
        · rcases List.cons_lt_cons_iff.mp hlt with hname | ⟨rfl, hbehind⟩
          · have hnone := hfirst other inside' hfound' hvisible' hkept' hname
            exact (failure_entering_eq_none_iff (hf.find? hfound')).mp hnone more' hmore'
          · cases hfound.symm.trans hfound'
            exact hleast more' hmore' hbehind
      · rintro ⟨_ | ⟨name, more⟩, hnames, hfails, hfirst⟩
        · cases hlist.symm.trans hfails
        · cases hnames with
          | @into _ _ _ inside _ hfound hvisible hkept hmore =>
            refine ⟨name, inside, hfound, hvisible, hkept, ?_, ?_⟩
            · refine (ih name inside hfound (hf.find? hfound)).mpr ⟨more, hmore, hfails, ?_⟩
              intro other hother hlt
              exact hfirst (name :: other) (.into hfound hvisible hkept hother)
                (List.cons_lt_cons_iff.mpr (.inr ⟨rfl, hlt⟩))
            · intro other inside' hfound' hvisible' hkept' hlt
              refine (failure_entering_eq_none_iff (hf.find? hfound')).mpr fun more' hmore' => ?_
              exact hfirst (other :: more') (.into hfound' hvisible' hkept' hmore')
                (List.cons_lt_cons_iff.mpr (.inl hlt))

/-- A walk enters those folders which stand below it and where nothing on the way is hidden or excluded. -/
theorem enters_iff : s.Enters path f names ↔ f.node? names = some .folder ∧
    (∀ name ∈ names, isHidden name = false) ∧
      ∀ front behind, names = front ++ behind → front ≠ [] →
        s.excludes (Path.joinAll path front) true = false := by
  constructor
  · intro h
    induction h with
    | here =>
      refine ⟨rfl, by simp, ?_⟩
      intro front behind hnil hfront
      exact (hfront (List.append_eq_nil_iff.mp hnil.symm).1).elim
    | @into path name f inside more hfound hvisible hkept _ ih =>
      obtain ⟨hfolder, hmore, hexcludes⟩ := ih
      refine ⟨Folder.node?_cons_eq_folder_iff.mpr ⟨inside, hfound, hfolder⟩,
        List.forall_mem_cons.mpr ⟨hvisible, hmore⟩, ?_⟩
      intro front behind hnames hfront
      obtain ⟨first, front, rfl⟩ := List.exists_cons_of_ne_nil hfront
      rw [List.cons_append, List.cons.injEq] at hnames
      obtain ⟨rfl, hnames⟩ := hnames
      by_cases hnil : front = []
      · rw [hnil]
        exact hkept
      · exact hexcludes front behind hnames hnil
  · rintro ⟨hfolder, hvisible, hkept⟩
    induction names generalizing path f with
    | nil => exact .here
    | cons name more ih =>
      obtain ⟨inside, hfound, hfolder⟩ := Folder.node?_cons_eq_folder_iff.mp hfolder
      obtain ⟨hname, hmore⟩ := List.forall_mem_cons.mp hvisible
      refine .into hfound hname (hkept [name] more rfl (List.cons_ne_nil _ _)) (ih hfolder hmore ?_)
      intro front behind hnames _
      exact hkept (name :: front) behind (by rw [hnames]; rfl) (List.cons_ne_nil _ _)

end Search

end Discovery

/-! ## Where a discovery fails -/

section Discoveries

variable {d : Disk} {root pattern top : Text} {respectIgnore : Bool} {inside : Folder}
  {chosen : List Rule} {ignored : Option IgnoreRules} {names : List Text}

/-- What makes a folder below the folder of a discovery one that the discovery goes through: no part of
its name is hidden, and the ignore rules exclude neither it nor a folder on the way. The folder of the
discovery itself has no names and is one of them. -/
structure IsEntered (d : Disk) (top : Text) (inside : Folder) (ignored : Option IgnoreRules)
    (names : List Text) : Prop where
  folder : inside.node? names = some .folder
  visible : ∀ name ∈ names, isHidden name = false
  kept : ∀ front behind, names = front ++ behind → front ≠ [] →
    ¬ IgnoreRules.Exclude ignored (d.target top) front true

/-- What makes a folder the one at which a discovery stops: it is the first one, by the names, of those
that the discovery goes through and that have a path which is too long to be listed. -/
structure StopsAt (d : Disk) (top : Text) (inside : Folder) (ignored : Option IgnoreRules)
    (names : List Text) : Prop where
  entered : IsEntered d top inside ignored names
  long : isLongPath (Path.joinAll top names) = true
  first : ∀ other, IsEntered d top inside ignored other → other < names →
    isLongPath (Path.joinAll top other) = false

/-- The failure of a discovery at a folder with a path that is too long. -/
def tooLong (path : Text) : Failure := .discovery (.unlistable path ⟨.nameTooLong, path⟩)

theorem isEntered_nil : IsEntered d top inside ignored [] := by
  refine ⟨rfl, by simp, ?_⟩
  intro front behind hnil hfront
  exact (hfront (List.append_eq_nil_iff.mp hnil.symm).1).elim

/-- Rules can only keep a discovery out of a folder. -/
theorem IsEntered.without_rules (h : IsEntered d top inside ignored names) :
    IsEntered d top inside none names :=
  { h with kept := fun _ _ _ _ => not_exclude_none _ _ _ }

/-- The folders that a walk enters, told by the rules. -/
theorem enters_iff_isEntered (hcwd : ∀ name ∈ d.cwd, IsName name) (hinside : inside.Proper)
    (hload : ∀ rules, ignored = some rules →
      ∃ above, d.target top = Path.names rules.base ++ above) :
    (⟨d, chosen, ignored⟩ : Search).Enters top inside names ↔
      IsEntered d top inside ignored names := by
  have hexcludes : inside.node? names = some .folder → ∀ front behind, names = front ++ behind →
      front ≠ [] → ((⟨d, chosen, ignored⟩ : Search).excludes (Path.joinAll top front) true = false ↔
        ¬ IgnoreRules.Exclude ignored (d.target top) front true) := by
    intro hnode front behind hnames hfront
    rw [← Bool.not_eq_true, excludes_iff hcwd hload hfront]
    intro name hname
    exact hinside.isName_of_node? (by rw [hnode]; simp) name (hnames ▸ List.mem_append_left _ hname)
  rw [Search.enters_iff]
  constructor
  · rintro ⟨hfolder, hvisible, hkept⟩
    refine ⟨hfolder, hvisible, fun front behind hnames hfront => ?_⟩
    exact (hexcludes hfolder front behind hnames hfront).mp (hkept front behind hnames hfront)
  · rintro ⟨hfolder, hvisible, hkept⟩
    refine ⟨hfolder, hvisible, fun front behind hnames hfront => ?_⟩
    exact (hexcludes hfolder front behind hnames hfront).mpr (hkept front behind hnames hfront)

/-- A path that is too long is not listed, whatever stands there. -/
theorem listFolder_of_long {path : Text} (hnul : Disk.hasNul path = false)
    (hlong : isLongPath path = true) : listFolder d path = .error (tooLong path) := by
  have hne : path ≠ [] := by
    rintro rfl
    cases hlong
  have hlook : d.look .look path = .error .nameTooLong := by
    rw [Disk.look, Disk.locate, if_neg hne, if_pos hlong]
  rw [listFolder, Disk.list, if_neg (by simp [hnul]), hlook]
  rfl

theorem isLongPath_of_list {path : Text} (h : d.list path = .ok inside) :
    isLongPath path = false := by
  by_contra hlong
  have hfails := listFolder_of_long (d := d) (Disk.list_eq_ok h).1 (by simpa using hlong)
  cases hfails.symm.trans (listFolder_eq_ok_iff.mpr h)

/-- How listing a folder below the folder of a discovery ends depends on its path only. -/
theorem listFolder_joinAll (hd : d.Named) (hlist : d.list top = .ok inside)
    (hfolder : inside.node? names = some .folder) :
    if isLongPath (Path.joinAll top names) then
      listFolder d (Path.joinAll top names) = .error (tooLong (Path.joinAll top names))
    else ∃ below, listFolder d (Path.joinAll top names) = .ok below := by
  have hnames : ∀ name ∈ names, IsName name :=
    (Disk.proper_of_list hd.proper hlist).isName_of_node? (by rw [hfolder]; simp)
  split
  · rename_i hlong
    refine listFolder_of_long ?_ hlong
    have hnul := (Disk.list_eq_ok hlist).1
    rw [Disk.hasNul_eq_false_iff] at hnul ⊢
    intro hmem
    rcases Path.mem_joinAll (by decide) hmem with htop | ⟨name, hname, hmem⟩
    · exact hnul htop
    · exact (hnames name hname).no_nul hmem
  · rename_i hshort
    obtain ⟨below, hbelow⟩ := Folder.node?_eq_folder_iff.mp hfolder
    refine ⟨below, listFolder_eq_ok_iff.mpr ?_⟩
    exact Disk.list_joinAll hd hlist hbelow (fun name hname => (hnames name hname).no_slash)
      (by simpa using hshort)

theorem lists_iff (hd : d.Named) (hlist : d.list top = .ok inside)
    (hfolder : inside.node? names = some .folder) :
    (⟨d, chosen, ignored⟩ : Search).Lists top names ↔ isLongPath (Path.joinAll top names) = false := by
  have hends := listFolder_joinAll hd hlist hfolder
  rw [Search.Lists]
  split at hends
  · rename_i hlong
    simp [hlong, hends]
  · rename_i hshort
    simpa [hshort] using hends

theorem listFolder_eq_error_iff (hd : d.Named) (hlist : d.list top = .ok inside)
    (hfolder : inside.node? names = some .folder) {failure : Failure} :
    listFolder d (Path.joinAll top names) = .error failure ↔
      isLongPath (Path.joinAll top names) = true ∧ failure = tooLong (Path.joinAll top names) := by
  have hends := listFolder_joinAll hd hlist hfolder
  split at hends
  · rename_i hlong
    simp [hlong, hends, eq_comm]
  · rename_i hshort
    obtain ⟨below, hbelow⟩ := hends
    simp [hshort, hbelow]

/-- The rules of a discovery lie in the folder that it starts from or above it. -/
theorem base_above (hcwd : ∀ name ∈ d.cwd, IsName name)
    (hignored : (if respectIgnore then IgnoreRules.load d (Path.absolute d.cwdPath root)
      else .ok none) = .ok ignored) : ∀ rules, ignored = some rules →
      ∃ above, d.target (Path.absolute d.cwdPath root) = Path.names rules.base ++ above := by
  rintro rules rfl
  split at hignored
  · exact load_base hcwd hignored
  · cases hignored

/-- A discovery fails if it starts from a path that is too long. -/
theorem discover_of_long (hd : d.Named) (hroot : d.isFolder root = true)
    (hchosen : readPattern pattern = .ok chosen)
    (hignored : (if respectIgnore then IgnoreRules.load d (Path.absolute d.cwdPath root)
      else .ok none) = .ok ignored)
    (hlong : isLongPath (Path.absolute d.cwdPath root) = true) :
    discover d root pattern respectIgnore = .error (tooLong (Path.absolute d.cwdPath root)) := by
  obtain ⟨there, hlist⟩ := Disk.isFolder_iff_list.mp hroot
  have hnul := Disk.hasNul_absolute hd (Disk.list_eq_ok hlist).1
  rw [discover, survey, if_neg (by simp [hroot])]
  simp only [hchosen, hignored, listFolder_of_long hnul hlong]
  rfl

section Fails

variable (hd : d.Named) (hroot : d.isFolder root = true)
  (hlist : isLongPath (Path.absolute d.cwdPath root) = false →
    d.list (Path.absolute d.cwdPath root) = .ok inside)
  (hchosen : readPattern pattern = .ok chosen)
  (hignored : (if respectIgnore then IgnoreRules.load d (Path.absolute d.cwdPath root)
    else .ok none) = .ok ignored)

include hd hroot hlist hchosen hignored

/-- **A discovery fails exactly if it goes through a folder whose path is too long, and then at the first
of these.** -/
theorem discover_eq_error_iff {failure : Failure} :
    discover d root pattern respectIgnore = .error failure ↔ ∃ names,
      StopsAt d (Path.absolute d.cwdPath root) inside ignored names ∧
        failure = tooLong (Path.joinAll (Path.absolute d.cwdPath root) names) := by
  cases hlong : isLongPath (Path.absolute d.cwdPath root) with
  | true =>
    rw [discover_of_long hd hroot hchosen hignored hlong]
    constructor
    · rintro ⟨⟩
      exact ⟨[], ⟨isEntered_nil, hlong, fun other _ hlt => (List.not_lt_nil other hlt).elim⟩, rfl⟩
    · rintro ⟨_ | ⟨name, more⟩, hstops, rfl⟩
      · rfl
      · have hshort := hstops.first [] isEntered_nil (List.nil_lt_cons name more)
        cases hlong.symm.trans hshort
  | false =>
    have hlist := hlist hlong
    have hinside := Disk.proper_of_list hd.proper hlist
    rw [discover_eq_result hroot hchosen hignored hlist, Survey.result_eq_error_iff, Search.walk,
      ← Search.failure_entering_of_ok (s := ⟨d, chosen, ignored⟩) (listFolder_eq_ok_iff.mpr hlist),
      Search.failure_entering_eq_some_iff hinside]
    simp only [enters_iff_isEntered hd.cwd hinside (base_above hd.cwd hignored)]
    refine exists_congr fun names => ⟨?_, ?_⟩
    · rintro ⟨hentered, hfails, hfirst⟩
      obtain ⟨hlong, rfl⟩ := (listFolder_eq_error_iff hd hlist hentered.folder).mp hfails
      refine ⟨⟨hentered, hlong, fun other hother hlt => ?_⟩, rfl⟩
      exact (lists_iff hd hlist hother.folder).mp (hfirst other hother hlt)
    · rintro ⟨hstops, rfl⟩
      refine ⟨hstops.entered, (listFolder_eq_error_iff hd hlist hstops.entered.folder).mpr
        ⟨hstops.long, rfl⟩, fun other hother hlt => ?_⟩
      exact (lists_iff hd hlist hother.folder).mpr (hstops.first other hother hlt)

/-- **A discovery gives lessons exactly if no folder that it goes through has a path which is too
long.** -/
theorem exists_discover_iff :
    (∃ found, discover d root pattern respectIgnore = .ok found) ↔
      ∀ names, IsEntered d (Path.absolute d.cwdPath root) inside ignored names →
        isLongPath (Path.joinAll (Path.absolute d.cwdPath root) names) = false := by
  cases hlong : isLongPath (Path.absolute d.cwdPath root) with
  | true =>
    rw [discover_of_long hd hroot hchosen hignored hlong]
    constructor
    · rintro ⟨_, ⟨⟩⟩
    · intro h
      cases hlong.symm.trans (h [] isEntered_nil)
  | false =>
    have hlist := hlist hlong
    have hinside := Disk.proper_of_list hd.proper hlist
    simp only [discover_eq_result hroot hchosen hignored hlist, Survey.result_eq_ok_iff, Search.walk,
      exists_and_left, exists_eq, and_true]
    rw [← Search.failure_entering_of_ok (s := ⟨d, chosen, ignored⟩) (listFolder_eq_ok_iff.mpr hlist),
      Search.failure_entering_eq_none_iff hinside]
    refine forall_congr' fun names => ?_
    rw [enters_iff_isEntered hd.cwd hinside (base_above hd.cwd hignored)]
    exact forall_congr' fun hentered => lists_iff hd hlist hentered.folder

/-- **Where it goes through a folder whose path is too long, a discovery stops at the first of these.** -/
theorem exists_stopsAt (hentered : IsEntered d (Path.absolute d.cwdPath root) inside ignored names)
    (hlong : isLongPath (Path.joinAll (Path.absolute d.cwdPath root) names) = true) :
    ∃ names, StopsAt d (Path.absolute d.cwdPath root) inside ignored names ∧
      discover d root pattern respectIgnore =
        .error (tooLong (Path.joinAll (Path.absolute d.cwdPath root) names)) := by
  cases hfound : discover d root pattern respectIgnore with
  | ok found =>
    have hshort := (exists_discover_iff hd hroot hlist hchosen hignored).mp ⟨found, hfound⟩
    cases hlong.symm.trans (hshort names hentered)
  | error failure =>
    obtain ⟨names, hstops, rfl⟩ :=
      (discover_eq_error_iff hd hroot hlist hchosen hignored).mp hfound
    exact ⟨names, hstops, rfl⟩

end Fails

end Discoveries

/-! ## A deep disk -/

/-- A name of 250 letters. -/
def longName : Text := List.replicate 250 'd'

/-- Folders with this name, one in the other. -/
def nested : Nat → Folder
  | 0 => .empty
  | n + 1 => .folder longName (nested n) .empty

theorem node?_nested {n : Nat} {names : List Text} (h : (nested n).node? names = some .folder) :
    ∃ k ≤ n, names = List.replicate k longName := by
  induction n generalizing names with
  | zero =>
    cases names with
    | nil => exact ⟨0, Nat.le_refl 0, rfl⟩
    | cons name more => cases h
  | succ n ih =>
    cases names with
    | nil => exact ⟨0, Nat.zero_le _, rfl⟩
    | cons name more =>
      obtain ⟨inside, hfound, hmore⟩ := Folder.node?_cons_eq_folder_iff.mp h
      rw [nested, Folder.find?] at hfound
      split at hfound
      · rename_i hname
        cases hfound
        obtain ⟨k, hk, rfl⟩ := ih hmore
        exact ⟨k + 1, Nat.succ_le_succ hk, by rw [← hname, List.replicate_succ]⟩
      · cases hfound

/-- An ignore file, a lesson, and beside them seventeen folders in one another. -/
def deepFolder : Folder :=
  .file ignoreFileName (Utf8.encode "d*/\n".toList) (.file "a.ts".toList [] (nested 17))

/-- A disk with these in the folder `/T`. The path of the last folder is too long to be listed, and the
ignore file excludes the first one. -/
def deepDisk : Disk := ⟨.folder "T".toList deepFolder .empty, ["T".toList]⟩

theorem isLongPath_nested : ∀ k ≤ 17,
    isLongPath (Path.joinAll "/T".toList (List.replicate k longName)) = decide (k = 17) := by
  decide +kernel

/-- Where no rules count, the walk through these folders comes to the last one. -/
theorem stopsAt_deepFolder :
    StopsAt deepDisk "/T".toList deepFolder none (List.replicate 17 longName) := by
  refine ⟨⟨by decide +kernel, by decide +kernel, fun _ _ _ _ => not_exclude_none _ _ _⟩,
    isLongPath_nested 17 (Nat.le_refl 17), ?_⟩
  intro other hother hlt
  -- the two files are no folders on the way
  have hnested : (nested 17).node? other = some .folder :=
    (Folder.node?_cons_leaf (e := .file []) (by simp [Entry.node]) (by decide +kernel) other).mp
      ((Folder.node?_cons_leaf (e := .file _) (by simp [Entry.node]) (by decide +kernel) other).mp
        hother.folder)
  obtain ⟨k, hk, rfl⟩ := node?_nested hnested
  rw [isLongPath_nested k hk, decide_eq_false_iff_not]
  rintro rfl
  exact List.lt_irrefl _ hlt

theorem named_deepDisk : deepDisk.Named := ⟨by decide +kernel, by decide +kernel⟩

theorem list_deepDisk : deepDisk.list "/T".toList = .ok deepFolder := by decide +kernel

/-- **Where no rules count, a discovery fails on this disk.** -/
theorem discover_deepDisk {pattern : Text} {chosen : List Rule}
    (hchosen : readPattern pattern = .ok chosen) :
    discover deepDisk "/T".toList pattern false =
      .error (tooLong (Path.joinAll "/T".toList (List.replicate 17 longName))) := by
  have hnormal : Path.absolute deepDisk.cwdPath "/T".toList = "/T".toList := by decide +kernel
  have hroot := Disk.isFolder_iff_list.mpr ⟨_, list_deepDisk⟩
  have hlist : isLongPath (Path.absolute deepDisk.cwdPath "/T".toList) = false →
      deepDisk.list (Path.absolute deepDisk.cwdPath "/T".toList) = .ok deepFolder := by
    rw [hnormal]
    exact fun _ => list_deepDisk
  refine (discover_eq_error_iff named_deepDisk hroot hlist hchosen rfl).mpr
    ⟨List.replicate 17 longName, ?_, ?_⟩
  · rw [hnormal]
    exact stopsAt_deepFolder
  · rw [hnormal]

end LessonPages
