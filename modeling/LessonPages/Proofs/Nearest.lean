import Mathlib.Data.List.Induction
import Mathlib.Data.List.Infix
import Mathlib.Logic.Function.Iterate
import LessonPages.Proofs.Absolute
import LessonPages.Proofs.PageNames

/-!
# The nearest ignore file

An ignore file is looked for in a folder, then in the one above it, and so on, until a path is above
itself. Paths get shorter on the way up, so the search ends, for any start; it ends at the slashes that
the absolute path starts with, one or two.

* `Path.parent_eq_self_or_shorter` — the path above another one is that path, or shorter.
* `Ignore.mem_selfAndParents_iff`, `Ignore.above_iff` — the paths on the way up, by steps and by names.
* `Ignore.Seeks` — the search, step by step; `Ignore.exists_seeks` — how it ends.
* `Ignore.find?_nearest` — what is found.
-/

namespace LessonPages

/-! ## The way up -/

namespace Path

/-- **The path above another one is shorter, unless it is that path.** -/
theorem parent_eq_self_or_shorter (p : Text) : parent p = p ∨ (parent p).length < p.length := by
  by_cases hlast : (headTail p).2 = []
  · -- behind a slash at the end nothing is cut off, so only slashes can be dropped
    have hcut := cutLastSlash_append p
    have hnil : (cutLastSlash p).2 = [] := hlast
    rw [hnil, List.append_nil] at hcut
    show dropSlashes (cutLastSlash p).1 = p ∨ (dropSlashes (cutLastSlash p).1).length < p.length
    rw [hcut]
    have hdropped := trimRight_append_takeWhile (· == '/') p
    unfold dropSlashes
    split
    · exact .inl rfl
    · by_cases hnone : (p.reverse.takeWhile (· == '/')).reverse = []
      · rw [hnone, List.append_nil] at hdropped
        exact .inl hdropped
      · right
        have hlength := congrArg List.length hdropped
        have hpos := List.length_pos_iff.mpr hnone
        rw [List.length_append] at hlength
        omega
  · exact .inr (length_headTail_lt hlast)

/-- A slash behind a path that does not end in one is dropped. -/
theorem dropSlashes_append_slash {p : Text} {c : Char} (hlast : p.getLast? = some c) (hc : c ≠ '/') :
    dropSlashes (p ++ ['/']) = p := by
  obtain ⟨front, rfl⟩ := List.getLast?_eq_some_iff.mp hlast
  simp [dropSlashes, Text.trimRight, hc]

/-- **The path above that of some names is the path of the names before the last one.** -/
theorem parent_intercalate {root name : Text} {names : List Text}
    (hroot : root = ['/'] ∨ root = ['/', '/']) (h : ∀ name ∈ names, IsStep name ∧ '/' ∉ name)
    (hname : '/' ∉ name) :
    parent (root ++ ['/'].intercalate (names ++ [name])) = root ++ ['/'].intercalate names := by
  by_cases hnil : names = []
  · subst hnil
    rw [List.nil_append, List.intercalate_singleton, List.intercalate_nil, List.append_nil]
    show dropSlashes (cutLastSlash (root ++ name)).1 = root
    rcases hroot with rfl | rfl
    · rw [show ['/'] ++ name = [] ++ '/' :: name from rfl, cutLastSlash_append_cons _ hname]
      rfl
    · rw [show ['/', '/'] ++ name = ['/'] ++ '/' :: name from rfl, cutLastSlash_append_cons _ hname]
      rfl
  · obtain ⟨c, hlast, hc⟩ := exists_getLast?_intercalate hnil h
    have hwhole : (root ++ ['/'].intercalate names).getLast? = some c := by
      rw [List.getLast?_append, hlast]
      rfl
    have hsplit : root ++ ['/'].intercalate (names ++ [name]) =
        (root ++ ['/'].intercalate names) ++ '/' :: name := by
      rw [intercalate_append hnil (List.cons_ne_nil _ _), List.intercalate_singleton]
      simp
    show dropSlashes (cutLastSlash _).1 = _
    rw [hsplit, cutLastSlash_append_cons _ hname, dropSlashes_append_slash hwhole hc]

theorem parent_root {root : Text} (hroot : root = ['/'] ∨ root = ['/', '/']) : parent root = root := by
  rcases hroot with rfl | rfl <;> decide

end Path

namespace Ignore

variable {d : Disk} {dir p : Text} {steps steps' : Nat} {found found' : Option Text}

/-- The paths on the way up are those that are reached by steps upwards. -/
theorem mem_selfAndParents_iff : dir ∈ selfAndParents p ↔ ∃ k, dir = Path.parent^[k] p := by
  fun_induction selfAndParents p with
  | case1 p hshort ih =>
    rw [List.mem_cons, ih]
    constructor
    · rintro (rfl | ⟨k, rfl⟩)
      · exact ⟨0, rfl⟩
      · exact ⟨k + 1, rfl⟩
    · rintro ⟨_ | k, rfl⟩
      · exact .inl rfl
      · exact .inr ⟨k, rfl⟩
  | case2 p hlong =>
    have hself := (Path.parent_eq_self_or_shorter p).resolve_right hlong
    rw [List.mem_singleton]
    constructor
    · rintro rfl
      exact ⟨0, rfl⟩
    · rintro ⟨k, rfl⟩
      exact Function.iterate_fixed hself k

theorem length_le_of_mem_selfAndParents (h : dir ∈ selfAndParents p) : dir.length ≤ p.length := by
  fun_induction selfAndParents p with
  | case1 p hshort ih =>
    rcases List.mem_cons.mp h with rfl | h
    · exact Nat.le_refl _
    · have := ih h
      omega
  | case2 p hlong =>
    rw [List.mem_singleton.mp h]

/-- On the way up, paths get shorter. -/
theorem pairwise_selfAndParents (p : Text) :
    (selfAndParents p).Pairwise fun a b => b.length < a.length := by
  fun_induction selfAndParents p with
  | case1 p hshort ih =>
    refine List.pairwise_cons.mpr ⟨?_, ih⟩
    intro dir hdir
    have := length_le_of_mem_selfAndParents hdir
    omega
  | case2 p hlong => exact List.pairwise_singleton _ _

/-- The paths on the way up from the path of some names are those of the names at their start. -/
theorem selfAndParents_intercalate {root : Text} {names : List Text}
    (hroot : root = ['/'] ∨ root = ['/', '/']) (h : ∀ name ∈ names, IsStep name ∧ '/' ∉ name) :
    selfAndParents (root ++ ['/'].intercalate names) =
      names.inits.reverse.map fun front => root ++ ['/'].intercalate front := by
  induction names using List.reverseRecOn with
  | nil =>
    rw [List.intercalate_nil, List.append_nil, selfAndParents, dif_neg]
    · simp
    · rw [Path.parent_root hroot]
      omega
  | append_singleton names name ih =>
    have hnames : ∀ n ∈ names, IsStep n ∧ '/' ∉ n := fun n hn => h n (List.mem_append_left _ hn)
    obtain ⟨hstep, hname⟩ := h name (by simp)
    have hparent := Path.parent_intercalate hroot hnames hname
    have hshort : (Path.parent (root ++ ['/'].intercalate (names ++ [name]))).length <
        (root ++ ['/'].intercalate (names ++ [name])).length := by
      refine (Path.parent_eq_self_or_shorter _).resolve_left ?_
      rw [hparent, List.append_cancel_left_eq]
      intro heq
      by_cases hnil : names = []
      · subst hnil
        rw [List.nil_append, List.intercalate_singleton] at heq
        exact hstep.ne_nil heq.symm
      · rw [intercalate_append hnil (List.cons_ne_nil _ _), List.append_assoc] at heq
        simp at heq
    rw [selfAndParents, dif_pos hshort, hparent, ih hnames]
    simp [List.inits_append]

/-- A path on the way up from a start: its absolute path, or one that some steps upwards lead to. -/
def Above (d : Disk) (start dir : Text) : Prop := ∃ k, dir = Path.parent^[k] (Path.absolute d.cwdPath start)

/-- **On the way up are the names that the absolute path starts with, behind its slashes.** -/
theorem above_iff (hcwd : ∀ name ∈ d.cwd, IsName name) {start : Text} : Above d start dir ↔
    ∃ front, front <+: d.target start ∧
      dir = Path.rootSlashes (Path.join d.cwdPath start) ++ ['/'].intercalate front := by
  have hroot := rootSlashes_of_isAbsolute (Disk.isAbsolute_join_cwdPath (d := d) start)
  rw [Above, ← mem_selfAndParents_iff, Disk.absolute_eq_append hcwd,
    selfAndParents_intercalate hroot (Disk.isStep_of_mem_target hcwd start)]
  simp only [List.mem_map, List.mem_reverse, List.mem_inits]
  exact exists_congr fun front => and_congr_right' eq_comm

theorem length_selfAndParents_absolute (hcwd : ∀ name ∈ d.cwd, IsName name) (start : Text) :
    (selfAndParents (Path.absolute d.cwdPath start)).length = (d.target start).length + 1 := by
  have hroot := rootSlashes_of_isAbsolute (Disk.isAbsolute_join_cwdPath (d := d) start)
  rw [Disk.absolute_eq_append hcwd,
    selfAndParents_intercalate hroot (Disk.isStep_of_mem_target hcwd start)]
  simp

/-! ## The search -/

/-- The path of the ignore file of a folder. -/
def fileIn (dir : Text) : Text := Path.join dir ignoreFileName

/-- The search from a folder upwards, with the number of steps that it takes and what it finds. It ends
where there is an ignore file, or where a path is above itself. -/
inductive Seeks (d : Disk) : Text → Nat → Option Text → Prop where
  | here {dir : Text} (hfile : d.isFile (fileIn dir) = true) : Seeks d dir 0 (some (fileIn dir))
  | top {dir : Text} (hnone : d.isFile (fileIn dir) = false) (htop : Path.parent dir = dir) :
      Seeks d dir 0 none
  | up {dir : Text} {steps : Nat} {found : Option Text} (hnone : d.isFile (fileIn dir) = false)
      (hup : Path.parent dir ≠ dir) (h : Seeks d (Path.parent dir) steps found) :
      Seeks d dir (steps + 1) found

theorem Seeks.unique (h : Seeks d dir steps found) (h' : Seeks d dir steps' found') :
    steps' = steps ∧ found' = found := by
  induction h generalizing steps' found' with
  | here hfile =>
    cases h' with
    | here _ => exact ⟨rfl, rfl⟩
    | top hnone _ | up hnone _ _ => simp [hfile] at hnone
  | top hnone htop =>
    cases h' with
    | here hfile => simp [hfile] at hnone
    | top _ _ => exact ⟨rfl, rfl⟩
    | up _ hup _ => exact (hup htop).elim
  | up hnone hup _ ih =>
    cases h' with
    | here hfile => simp [hfile] at hnone
    | top _ htop => exact (hup htop).elim
    | up _ _ h' =>
      obtain ⟨rfl, rfl⟩ := ih h'
      exact ⟨rfl, rfl⟩

/-- **The search ends, with the first ignore file on the way up.** -/
theorem exists_seeks (d : Disk) (dir : Text) : ∃ steps < (selfAndParents dir).length,
    Seeks d dir steps (((selfAndParents dir).map fileIn).find? d.isFile) := by
  fun_induction selfAndParents dir with
  | case1 dir hshort ih =>
    rw [List.map_cons]
    by_cases hfile : d.isFile (fileIn dir) = true
    · rw [List.find?_cons_of_pos hfile]
      exact ⟨0, by simp, .here hfile⟩
    · rw [List.find?_cons_of_neg hfile]
      obtain ⟨steps, hsteps, hseeks⟩ := ih
      have hup : Path.parent dir ≠ dir := fun htop => by
        rw [htop] at hshort
        omega
      exact ⟨steps + 1, by simpa using hsteps, .up (by simpa using hfile) hup hseeks⟩
  | case2 dir hlong =>
    have htop := (Path.parent_eq_self_or_shorter dir).resolve_right hlong
    by_cases hfile : d.isFile (fileIn dir) = true
    · exact ⟨0, by simp, by simpa [hfile] using Seeks.here hfile⟩
    · rw [Bool.not_eq_true] at hfile
      exact ⟨0, by simp, by simpa [hfile] using Seeks.top hfile htop⟩

/-- Among texts that get shorter, the first one with a property is the longest one. -/
theorem find?_eq_some_iff_longest {dirs : List Text} {P : Text → Bool}
    (h : dirs.Pairwise fun a b => b.length < a.length) : dirs.find? P = some dir ↔
      dir ∈ dirs ∧ P dir = true ∧ ∀ other ∈ dirs, P other = true → other.length ≤ dir.length := by
  induction dirs with
  | nil => simp
  | cons first rest ih =>
    obtain ⟨hfirst, hrest⟩ := List.pairwise_cons.mp h
    by_cases hP : P first = true
    · rw [List.find?_cons_of_pos hP, Option.some.injEq]
      constructor
      · rintro rfl
        refine ⟨List.mem_cons_self, hP, ?_⟩
        rintro other (_ | ⟨_, hother⟩) _
        · exact Nat.le_refl _
        · exact Nat.le_of_lt (hfirst other hother)
      · rintro ⟨_ | ⟨_, hdir⟩, -, hlongest⟩
        · rfl
        · have hshort := hfirst dir hdir
          have hlong := hlongest first List.mem_cons_self hP
          omega
    · rw [List.find?_cons_of_neg hP, ih hrest]
      constructor
      · rintro ⟨hdir, hPdir, hlongest⟩
        refine ⟨List.mem_cons_of_mem _ hdir, hPdir, ?_⟩
        rintro other (_ | ⟨_, hother⟩) hPother
        · exact (hP hPother).elim
        · exact hlongest other hother hPother
      · rintro ⟨_ | ⟨_, hdir⟩, hPdir, hlongest⟩
        · exact (hP hPdir).elim
        · exact ⟨hdir, hPdir, fun other hother => hlongest other (List.mem_cons_of_mem _ hother)⟩

theorem find?_eq_map (d : Disk) (start : Text) : find? d start =
    ((selfAndParents (Path.absolute d.cwdPath start)).find? fun dir => d.isFile (fileIn dir)).map
      fileIn :=
  List.find?_map ..

/-- A path that leads to a folder does not lead to a file. -/
theorem isFile_of_isFolder (h : d.isFolder p = true) : d.isFile p = false := by
  unfold Disk.isFolder at h
  split at h
  · rename_i hfound
    simp [Disk.isFile, hfound]
  · cases h

/-- **The nearest ignore file is found.** From any start, also one that leads nowhere, the search ends
after at most as many steps as the absolute path has names. It finds the file in the longest of the paths
on the way up that has one, and nothing exactly if none of them has; these paths are the names that the
absolute path starts with, behind its slashes. A folder that is named as an ignore file is passed over. -/
theorem find?_nearest (hcwd : ∀ name ∈ d.cwd, IsName name) (start : Text) :
    (∃ steps ≤ (d.target start).length, ∀ steps' found,
      Seeks d (Path.absolute d.cwdPath start) steps' found ↔
        steps' = steps ∧ found = find? d start) ∧
      (∀ dir, Above d start dir ↔ ∃ front, front <+: d.target start ∧
        dir = Path.rootSlashes (Path.join d.cwdPath start) ++ ['/'].intercalate front) ∧
      (∀ file, find? d start = some file ↔ ∃ dir, Above d start dir ∧ file = fileIn dir ∧
        d.isFile (fileIn dir) = true ∧
        ∀ other, Above d start other → d.isFile (fileIn other) = true → other.length ≤ dir.length) ∧
      (find? d start = none ↔ ∀ dir, Above d start dir → d.isFile (fileIn dir) = false) ∧
      ∀ dir, d.isFolder (fileIn dir) = true → find? d start ≠ some (fileIn dir) := by
  have hshorter := pairwise_selfAndParents (Path.absolute d.cwdPath start)
  refine ⟨?_, fun _ => above_iff hcwd, ?_, ?_, ?_⟩
  · obtain ⟨steps, hsteps, hseeks⟩ := exists_seeks d (Path.absolute d.cwdPath start)
    rw [length_selfAndParents_absolute hcwd] at hsteps
    refine ⟨steps, Nat.le_of_lt_succ hsteps, ?_⟩
    intro steps' found
    constructor
    · exact fun h => hseeks.unique h
    · rintro ⟨rfl, rfl⟩
      exact hseeks
  · intro file
    rw [find?_eq_map, Option.map_eq_some_iff]
    simp only [find?_eq_some_iff_longest hshorter, mem_selfAndParents_iff, ← Above.eq_def]
    constructor
    · rintro ⟨dir, ⟨hdir, hfile, hlongest⟩, rfl⟩
      exact ⟨dir, hdir, rfl, hfile, hlongest⟩
    · rintro ⟨dir, hdir, rfl, hfile, hlongest⟩
      exact ⟨dir, ⟨hdir, hfile, hlongest⟩, rfl⟩
  · rw [find?_eq_map, Option.map_eq_none_iff, List.find?_eq_none]
    simp only [mem_selfAndParents_iff, Bool.not_eq_true]
    rfl
  · intro dir hfolder hfound
    have hfile : d.isFile (fileIn dir) = true := List.find?_some hfound
    rw [isFile_of_isFolder hfolder] at hfile
    cases hfile

/-- A disk on which the ignore file of the folder `/T` is a link to a file, and a folder has the name of
the ignore file of the folder `/T/a`. -/
def linkedRules : Disk :=
  ⟨.folder "T".toList (.link ignoreFileName "rules".toList (.file "rules".toList []
    (.folder "a".toList (.folder ignoreFileName .empty .empty) .empty))) .empty, ["T".toList]⟩

theorem find?_nearest_linkedRules :
    linkedRules.isFolder (fileIn "/T/a".toList) = true ∧
      ∃ dir, Above linkedRules "a//b/../c".toList dir ∧ "/T/.gitignore".toList = fileIn dir ∧
        linkedRules.isFile (fileIn dir) = true ∧
        ∀ other, Above linkedRules "a//b/../c".toList other →
          linkedRules.isFile (fileIn other) = true → other.length ≤ dir.length := by
  have hfound : find? linkedRules "a//b/../c".toList = some "/T/.gitignore".toList := by
    decide +kernel
  obtain ⟨-, -, hsome, -⟩ := find?_nearest (d := linkedRules) (by decide) "a//b/../c".toList
  exact ⟨by decide +kernel, (hsome _).mp hfound⟩

end Ignore

end LessonPages
