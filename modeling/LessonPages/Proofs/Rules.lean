import LessonPages.Proofs.PageNames

/-!
# How ignore rules see a path

The rules of an ignore file are asked about paths as they are seen from the folder of the file. The
file lies in the folder that is searched or above it, so what is below that folder is seen by the names
in between, followed by its own.

* `Path.names_parent` — the names of the path above another one.
* `load_base` — where the ignore file of a folder lies.
* `seen_below` — how a path below that folder is seen.
* `IgnoreRules.Exclude`, `excludes_iff` — what the rules exclude, told by names.
-/

namespace LessonPages

variable {d : Disk} {rules : IgnoreRules} {top : Text}

/-! ## Names of paths -/

namespace Path

theorem names_append_slash (p : Text) : names (p ++ ['/']) = names p := by
  show solidParts ((p ++ ['/']).splitOn '/') = solidParts (p.splitOn '/')
  rw [List.splitOn_append_cons_self, solidParts_append]
  exact List.append_nil _

theorem names_dropSlashes (p : Text) : names (dropSlashes p) = names p := by
  unfold dropSlashes
  split
  · rfl
  · have hslashes : ∀ (slashes q : Text), (∀ c ∈ slashes, c = '/') →
        names (q ++ slashes) = names q := by
      intro slashes
      induction slashes with
      | nil =>
        intro q _
        rw [List.append_nil]
      | cons c rest ih =>
        intro q hall
        obtain rfl : c = '/' := hall c List.mem_cons_self
        rw [List.append_cons, ih _ (fun c hc => hall c (List.mem_cons_of_mem _ hc)),
          names_append_slash]
    have hcut := trimRight_append_takeWhile (· == '/') p
    rw [← hslashes _ _ (fun c hc => ?_), hcut]
    have hmem := List.mem_takeWhile_imp (List.mem_reverse.mp hc)
    simpa using hmem

/-- The path above another one has all its names but what stands behind the last slash. -/
theorem names_parent (p : Text) : names (parent p) = solidParts ((p.splitOn '/').dropLast) := by
  have hfront := (splitOn_cutLastSlash p).2 [] List.not_mem_nil
  rw [List.append_nil] at hfront
  show names (dropSlashes (cutLastSlash p).1) = _
  rw [names_dropSlashes]
  show solidParts ((cutLastSlash p).1.splitOn '/') = _
  rw [hfront, solidParts_append]
  exact List.append_nil _

theorem names_parent_prefix (p : Text) : names (parent p) <+: names p := by
  rw [names_parent]
  exact (List.dropLast_prefix _).filter _

/-- The path above a name in a folder has the names of the folder. -/
theorem names_parent_join (p : Text) {name : Text} (hname : '/' ∉ name) :
    names (parent (join p name)) = names p := by
  obtain ⟨front, hjoin, hp⟩ := splitOn_join p (isAbsolute_eq_false hname)
  rw [names_parent, hjoin, List.splitOn_eq_singleton hname, List.dropLast_concat]
  show _ = solidParts (p.splitOn '/')
  rcases hp with hp | hp
  · rw [hp]
  · rw [hp, solidParts_append]
    exact (List.append_nil _).symm

end Path

/-! ## Where an ignore file lies -/

namespace Ignore

theorem names_prefix_of_mem_selfAndParents {p q : Text} (h : q ∈ selfAndParents p) :
    Path.names q <+: Path.names p := by
  rw [selfAndParents] at h
  split at h
  · rename_i hshort
    rcases List.mem_cons.mp h with rfl | h
    · exact List.prefix_refl _
    · exact (names_prefix_of_mem_selfAndParents h).trans (Path.names_parent_prefix p)
  · obtain rfl := List.mem_singleton.mp h
    exact List.prefix_refl _
termination_by p.length

end Ignore

/-- **The ignore file that counts for a folder lies in it or above it.** -/
theorem load_base (hcwd : ∀ name ∈ d.cwd, IsName name)
    (h : IgnoreRules.load d top = .ok (some rules)) :
    ∃ above, d.target top = Path.names rules.base ++ above := by
  unfold IgnoreRules.load at h
  split at h
  · cases h
  · rename_i path hfound
    split at h
    · cases h
    · split at h
      · cases h
      · cases h
        obtain ⟨dir, hdir, rfl⟩ := List.mem_map.mp (List.mem_of_find?_eq_some hfound)
        obtain ⟨above, habove⟩ := Ignore.names_prefix_of_mem_selfAndParents hdir
        rw [Disk.names_absolute hcwd] at habove
        refine ⟨above, ?_⟩
        rw [Path.names_parent_join _ (by decide), habove]

/-! ## What the rules see -/

/-- Nothing is dropped from the start of a name that is more than one dot. -/
theorem dropLead_append {name : Text} (hname : name ≠ [] ∧ name ≠ Path.here) (hslash : '/' ∉ name)
    (rest : Text) : Rule.dropLead (name ++ rest) = name ++ rest := by
  obtain ⟨hnil, hhere⟩ := hname
  obtain ⟨c, name, rfl⟩ := List.exists_cons_of_ne_nil hnil
  unfold Rule.dropLead
  split
  · rename_i heq
    cases heq
    simp at hslash
  · rename_i heq
    cases name with
    | nil =>
      cases heq
      exact absurd rfl hhere
    | cons e name =>
      cases heq
      simp at hslash
  · rfl

theorem dropLead_intercalate {names : List Text} (hne : names ≠ [])
    (hnames : ∀ name ∈ names, (name ≠ [] ∧ name ≠ Path.here) ∧ '/' ∉ name) (rest : Text) :
    Rule.dropLead (['/'].intercalate names ++ rest) = ['/'].intercalate names ++ rest := by
  obtain ⟨name, more, rfl⟩ := List.exists_cons_of_ne_nil hne
  obtain ⟨hname, hslash⟩ := hnames name List.mem_cons_self
  by_cases hmore : more = []
  · subst hmore
    rw [List.intercalate_singleton]
    exact dropLead_append hname hslash rest
  · rw [List.intercalate_cons_of_ne_nil hmore, List.append_assoc, List.append_assoc]
    exact dropLead_append hname hslash _

theorem commonLength_append (as bs : List Text) : Path.commonLength as (as ++ bs) = as.length := by
  induction as with
  | nil => rfl
  | cons a as ih => rw [List.cons_append, Path.commonLength, if_pos rfl, ih, List.length_cons]

/-- The way from a folder to what is below it goes down only. -/
theorem relative_of_below {base p : Text} {way : List Text} (h : Path.names p = Path.names base ++ way)
    (hway : way ≠ []) : Path.relative base p = ['/'].intercalate way := by
  have hnames : Path.relativeNames (Path.names base) (Path.names p) = way := by
    rw [Path.relativeNames, h, commonLength_append, Nat.sub_self, List.drop_left]
    rfl
  rw [Path.relative, hnames]
  simp [hway]

/-- **The rules see what is below a folder by the names from their own folder on.** -/
theorem seen_below (hcwd : ∀ name ∈ d.cwd, IsName name) {above names : List Text}
    (hbase : d.target top = Path.names rules.base ++ above) (hne : names ≠ [])
    (hnames : ∀ name ∈ names, IsName name) (isFolder : Bool) :
    rules.seen d (Path.joinAll top names) isFolder =
      ['/'].intercalate (above ++ names) ++ if isFolder then ['/'] else [] := by
  have htarget : d.target (Path.joinAll top names) = Path.names rules.base ++ (above ++ names) := by
    rw [Disk.target_joinAll_of_names hnames, hbase, List.append_assoc]
  rw [IgnoreRules.seen, relative_of_below ((Disk.names_absolute hcwd _).trans htarget) (by simp [hne])]

/-! ## What the rules exclude -/

section Exclude

open Discovery

variable {ignored : Option IgnoreRules} {chosen : List Rule} {names : List Text}

/-- What ignore rules say about names below a folder that has the names `top` from the root: they see
them from their own folder on, with a slash behind a folder. -/
def IgnoreRules.Exclude (ignored : Option IgnoreRules) (top names : List Text) (isFolder : Bool) :
    Prop :=
  ∃ rules above, ignored = some rules ∧ top = Path.names rules.base ++ above ∧
    Rule.verdict rules.rules
      (['/'].intercalate (above ++ names) ++ if isFolder then ['/'] else []) = true

/-- What rules ignore below a folder that lies in theirs. -/
theorem ignores_iff {rules : IgnoreRules} {above : List Text} (hcwd : ∀ name ∈ d.cwd, IsName name)
    (habove : d.target top = Path.names rules.base ++ above) (hne : names ≠ [])
    (hnames : ∀ name ∈ names, IsName name) (isFolder : Bool) :
    rules.ignores d (Path.joinAll top names) isFolder = true ↔
      IgnoreRules.Exclude (some rules) (d.target top) names isFolder := by
  rw [IgnoreRules.ignores, seen_below hcwd habove hne hnames]
  constructor
  · intro h
    exact ⟨rules, above, rfl, habove, h⟩
  · rintro ⟨_, above', ⟨⟩, habove', h⟩
    rw [habove, List.append_cancel_left_eq] at habove'
    rwa [habove']

/-- Without ignore rules, nothing is excluded. -/
theorem not_exclude_none (top names : List Text) (isFolder : Bool) :
    ¬ IgnoreRules.Exclude none top names isFolder := by
  rintro ⟨_, _, hnone, -⟩
  cases hnone

/-- What a walk excludes below a folder that lies in that of the rules. -/
theorem excludes_iff (hcwd : ∀ name ∈ d.cwd, IsName name)
    (hload : ∀ rules, ignored = some rules →
      ∃ above, d.target top = Path.names rules.base ++ above)
    (hne : names ≠ []) (hnames : ∀ name ∈ names, IsName name) (isFolder : Bool) :
    (⟨d, chosen, ignored⟩ : Search).excludes (Path.joinAll top names) isFolder = true ↔
      IgnoreRules.Exclude ignored (d.target top) names isFolder := by
  cases ignored with
  | none => simp [Search.excludes, not_exclude_none]
  | some rules =>
    obtain ⟨above, habove⟩ := hload rules rfl
    exact ignores_iff hcwd habove hne hnames isFolder

end Exclude

end LessonPages
