import Mathlib.Data.List.TakeWhile
import LessonPages.Ignore
import LessonPages.Proofs.Paths

/-!
# The text of an absolute path

The absolute path of a text is the slashes that it starts with and the names of its target. So it is
its own absolute path, and going on from a path by names goes on from its absolute path by the same
names, letter for letter.

* `Disk.absolute_eq_append` — the slashes and the names.
* `Disk.absolute_absolute`, `Ignore.find?_absolute` — an absolute path is absolute already.
* `Disk.absolute_joinAll` — going on from an absolute path.
-/

namespace LessonPages

namespace Path

theorem takeWhile_slash {t : Text} (h : isAbsolute t = false) : t.takeWhile (· == '/') = [] := by
  cases t with
  | nil => rfl
  | cons c t =>
    rw [List.takeWhile_cons_of_neg]
    simpa [isAbsolute] using h

/-- A path keeps the slashes at its start when it goes on. -/
theorem rootSlashes_join (p : Text) {q : Text} (h : isAbsolute q = false) :
    rootSlashes (join p q) = rootSlashes p := by
  suffices htake : (join p q).takeWhile (· == '/') = p.takeWhile (· == '/') by
    rw [rootSlashes, htake]
    rfl
  have hall : (p.takeWhile (· == '/')).length = p.length → p.takeWhile (· == '/') = p :=
    List.IsPrefix.eq_of_length (List.takeWhile_prefix _)
  rw [join, if_neg (by simp [h])]
  split
  · rw [List.takeWhile_append, takeWhile_slash h, List.append_nil]
    split
    · rename_i hlength
      exact (hall hlength).symm
    · rfl
  · rename_i hend
    rw [List.takeWhile_append, if_neg]
    intro hlength
    -- a path of slashes alone ends with one
    rw [Bool.or_eq_true, List.isEmpty_iff, decide_eq_true_eq, not_or] at hend
    obtain ⟨front, last, rfl⟩ := (List.eq_nil_or_concat' p).resolve_left hend.1
    have hlast : last ∈ (front ++ [last]).takeWhile (· == '/') := by
      rw [hall hlength]
      simp
    apply hend.2
    rw [List.getLast?_concat, Option.some.injEq]
    simpa using List.mem_takeWhile_imp hlast

theorem rootSlashes_joinAll {names : List Text} (h : ∀ name ∈ names, '/' ∉ name) (p : Text) :
    rootSlashes (joinAll p names) = rootSlashes p := by
  induction names generalizing p with
  | nil => rfl
  | cons name rest ih =>
    rw [joinAll, List.foldl_cons, ← joinAll, ih fun n hn => h n (List.mem_cons_of_mem _ hn),
      rootSlashes_join p (isAbsolute_eq_false (h name List.mem_cons_self))]

theorem rootSlashes_append {root t : Text} (hroot : root = ['/'] ∨ root = ['/', '/'])
    (ht : isAbsolute t = false) : rootSlashes (root ++ t) = root := by
  have htake := takeWhile_slash ht
  rcases hroot with rfl | rfl <;> simp [rootSlashes, htake]

theorem isAbsolute_intercalate {names : List Text} (h : ∀ name ∈ names, IsStep name ∧ '/' ∉ name) :
    isAbsolute (['/'].intercalate names) = false := by
  cases names with
  | nil => rfl
  | cons name rest =>
    obtain ⟨hstep, hslash⟩ := h name List.mem_cons_self
    obtain ⟨c, name, rfl⟩ := List.exists_cons_of_ne_nil hstep.ne_nil
    have hc : c ≠ '/' := by
      rintro rfl
      simp at hslash
    cases rest <;> simp [isAbsolute, List.intercalate, hc]

theorem exists_getLast?_intercalate {names : List Text} (hnil : names ≠ [])
    (h : ∀ name ∈ names, IsStep name ∧ '/' ∉ name) :
    ∃ c, (['/'].intercalate names).getLast? = some c ∧ c ≠ '/' := by
  have hsplit := List.splitOn_intercalate '/' (fun name hname => (h name hname).2) hnil
  have hsolid : [] ∉ names := fun hempty => (h [] hempty).1.ne_nil rfl
  cases hlast : (['/'].intercalate names).getLast? with
  | none =>
    rw [List.getLast?_eq_none_iff.mp hlast] at hsplit
    exact absurd (by simp [← hsplit]) hsolid
  | some c =>
    refine ⟨c, rfl, ?_⟩
    rintro rfl
    -- behind a slash at the end, the last name would be empty
    obtain ⟨front, hfront⟩ := List.getLast?_eq_some_iff.mp hlast
    rw [hfront, List.splitOn_append_cons_self] at hsplit
    exact absurd (by simp [← hsplit]) hsolid

/-- Going on by a name from the path of some names gives the path of one name more. -/
theorem join_intercalate {root name : Text} {names : List Text}
    (hroot : root = ['/'] ∨ root = ['/', '/'])
    (h : ∀ name ∈ names, IsStep name ∧ '/' ∉ name) (hname : '/' ∉ name) :
    join (root ++ ['/'].intercalate names) name = root ++ ['/'].intercalate (names ++ [name]) := by
  rw [join, if_neg (by simp [isAbsolute_eq_false hname])]
  by_cases hnil : names = []
  · subst hnil
    rw [List.nil_append, List.intercalate_singleton]
    rcases hroot with rfl | rfl <;> rfl
  · obtain ⟨c, hlast, hc⟩ := exists_getLast?_intercalate hnil h
    have hne : ['/'].intercalate names ≠ [] := by
      intro hempty
      rw [hempty] at hlast
      cases hlast
    rw [if_neg (by simp [List.getLast?_append, hlast, hc, hne]),
      intercalate_append hnil (List.cons_ne_nil _ _), List.intercalate_singleton]
    simp

theorem joinAll_intercalate {root : Text} {names more : List Text}
    (hroot : root = ['/'] ∨ root = ['/', '/'])
    (h : ∀ name ∈ names ++ more, IsStep name ∧ '/' ∉ name) :
    joinAll (root ++ ['/'].intercalate names) more = root ++ ['/'].intercalate (names ++ more) := by
  induction more generalizing names with
  | nil => rw [joinAll, List.foldl_nil, List.append_nil]
  | cons name more ih =>
    rw [List.append_cons] at h ⊢
    rw [joinAll, List.foldl_cons, ← joinAll, join_intercalate hroot, ih h]
    · intro n hn
      exact h n (by simp [hn])
    · exact (h name (by simp)).2

end Path

namespace Disk

variable {d : Disk}

theorem normal_eq_append {p : Text} (h : Path.isAbsolute p = true) :
    Path.normal p = Path.rootSlashes p ++ ['/'].intercalate (d.target p) := by
  rw [target, startNames_of_isAbsolute h, Path.normal]
  rcases rootSlashes_of_isAbsolute h with hroot | hroot <;> rw [hroot] <;> rfl

/-- **The absolute path of a text is the slashes that it starts with and the names of its target.** -/
theorem absolute_eq_append (hcwd : ∀ name ∈ d.cwd, IsName name) (p : Text) :
    Path.absolute d.cwdPath p =
      Path.rootSlashes (Path.join d.cwdPath p) ++ ['/'].intercalate (d.target p) := by
  rw [Path.absolute, normal_eq_append (isAbsolute_join_cwdPath p), target_join_cwdPath hcwd]

theorem isAbsolute_absolute (hcwd : ∀ name ∈ d.cwd, IsName name) (p : Text) :
    Path.isAbsolute (Path.absolute d.cwdPath p) = true :=
  (names_normal hcwd (isAbsolute_join_cwdPath p)).1

/-- **An absolute path is its own absolute path.** -/
theorem absolute_absolute (hcwd : ∀ name ∈ d.cwd, IsName name) (p : Text) :
    Path.absolute d.cwdPath (Path.absolute d.cwdPath p) = Path.absolute d.cwdPath p := by
  have habs := isAbsolute_absolute hcwd p
  have hjoin : Path.join d.cwdPath (Path.absolute d.cwdPath p) = Path.absolute d.cwdPath p := by
    rw [Path.join, if_pos habs]
  have hslashes := Path.rootSlashes_append (rootSlashes_of_isAbsolute (isAbsolute_join_cwdPath (d := d) p))
    (Path.isAbsolute_intercalate (isStep_of_mem_target hcwd p))
  rw [absolute_eq_append hcwd, hjoin, target_absolute hcwd, absolute_eq_append hcwd, hslashes]

/-- **Going on by names from the absolute path of a text gives the absolute path of going on from it.** -/
theorem absolute_joinAll (hcwd : ∀ name ∈ d.cwd, IsName name) {names : List Text}
    (h : ∀ name ∈ names, IsName name) (p : Text) :
    Path.absolute d.cwdPath (Path.joinAll p names) = Path.joinAll (Path.absolute d.cwdPath p) names := by
  have hslash : ∀ name ∈ names, '/' ∉ name := fun name hname => (h name hname).no_slash
  have hslashes : Path.rootSlashes (Path.join d.cwdPath (Path.joinAll p names)) =
      Path.rootSlashes (Path.join d.cwdPath p) := by
    have hjoin := isAbsolute_joinAll hslash p
    by_cases hp : Path.isAbsolute p = true
    · rw [Path.join, if_pos (hjoin.trans hp), Path.join, if_pos hp, Path.rootSlashes_joinAll hslash]
    · rw [Bool.not_eq_true] at hp
      rw [Path.rootSlashes_join _ (hjoin.trans hp), Path.rootSlashes_join _ hp]
  rw [absolute_eq_append hcwd, absolute_eq_append hcwd, hslashes, target_joinAll_of_names h,
    Path.joinAll_intercalate (rootSlashes_of_isAbsolute (isAbsolute_join_cwdPath p))]
  intro name hname
  rcases List.mem_append.mp hname with hname | hname
  · exact isStep_of_mem_target hcwd p name hname
  · exact ⟨(h name hname).toIsStep, hslash name hname⟩

end Disk

variable {d : Disk}

/-- The nearest ignore file is the same for a path and its absolute path. -/
theorem Ignore.find?_absolute (hcwd : ∀ name ∈ d.cwd, IsName name) (p : Text) :
    Ignore.find? d (Path.absolute d.cwdPath p) = Ignore.find? d p := by
  rw [Ignore.find?, Disk.absolute_absolute hcwd, ← Ignore.find?]

/-- Folders with the same nearest ignore file have the same rules. -/
theorem IgnoreRules.load_congr {p q : Text} (h : Ignore.find? d p = Ignore.find? d q) :
    IgnoreRules.load d p = IgnoreRules.load d q := by
  rw [IgnoreRules.load, h, ← IgnoreRules.load]

/-- Rules are anchored at the folder of the nearest ignore file. -/
theorem IgnoreRules.exists_file {p : Text} {rules : IgnoreRules}
    (h : IgnoreRules.load d p = .ok (some rules)) :
    ∃ file, Ignore.find? d p = some file ∧ rules.base = Path.parent file := by
  unfold IgnoreRules.load at h
  split at h
  · cases h
  · rename_i file hfile
    split at h
    · cases h
    · split at h
      · cases h
      · cases h
        exact ⟨file, hfile, rfl⟩

end LessonPages
