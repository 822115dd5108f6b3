import LessonPages.Proofs.Extends

/-!
# Where joined paths lead

Going on from a path by names goes on from its target by the same names, however the path is
written.

* `Disk.target_pathBelow` — the target of a path given from a folder on.
* `Disk.target_absolute` — the normal path from the root has the same target.
* `Disk.reaches_pathBelow` — a file below a folder can be reached from there.
-/

namespace LessonPages

open Utf8 (Bytes)

/-! ## Parts of a joined path -/

theorem isAbsolute_eq_false {part : Text} (h : '/' ∉ part) : Path.isAbsolute part = false := by
  cases part with
  | nil => rfl
  | cons c rest =>
    have hc : c ≠ '/' := fun hc => h (hc ▸ List.mem_cons_self)
    simp [Path.isAbsolute, hc]

/-- A path that goes on by another one has the parts of both; an empty part at the end of the first
one does not count. -/
theorem splitOn_join (p : Text) {q : Text} (h : Path.isAbsolute q = false) :
    ∃ front, (Path.join p q).splitOn '/' = front ++ q.splitOn '/' ∧
      (p.splitOn '/' = front ∨ p.splitOn '/' = front ++ [[]]) := by
  rw [Path.join, if_neg (by simp [h])]
  split
  · rename_i hend
    rw [Bool.or_eq_true, List.isEmpty_iff, decide_eq_true_eq] at hend
    rcases hend with rfl | hlast
    · exact ⟨[], rfl, .inr rfl⟩
    · obtain ⟨p', rfl⟩ := List.getLast?_eq_some_iff.mp hlast
      refine ⟨p'.splitOn '/', ?_, .inr ?_⟩
      · rw [List.append_assoc, List.singleton_append, List.splitOn_append_cons_self]
      · rw [List.splitOn_append_cons_self]
        rfl
  · exact ⟨p.splitOn '/', List.splitOn_append_cons_self p q, .inl rfl⟩

/-- Going on from a path part after part appends the parts, if the empty ones are left out. -/
theorem solidParts_joinAll {parts : List Text} (h : ∀ part ∈ parts, '/' ∉ part) (p : Text) :
    solidParts ((Path.joinAll p parts).splitOn '/') =
      solidParts (p.splitOn '/') ++ solidParts parts := by
  induction parts generalizing p with
  | nil => exact (List.append_nil _).symm
  | cons part rest ih =>
    have hpart := h part List.mem_cons_self
    obtain ⟨front, hjoin, hp⟩ := splitOn_join p (isAbsolute_eq_false hpart)
    have hfront : solidParts (p.splitOn '/') = solidParts front := by
      rcases hp with hp | hp
      · rw [hp]
      · rw [hp, solidParts_append, solidParts_cons_nil, solidParts_nil, List.append_nil]
    rw [Path.joinAll, List.foldl_cons, ← Path.joinAll,
      ih (fun q hq => h q (List.mem_cons_of_mem _ hq)), hjoin, List.splitOn_eq_singleton hpart,
      solidParts_append, ← hfront, List.append_assoc, ← solidParts_append, List.singleton_append]

/-- The last part of a joined path is the part that came last. -/
theorem getLast?_splitOn_joinAll {parts : List Text} (h : ∀ part ∈ parts, '/' ∉ part)
    (hne : parts ≠ []) (p : Text) :
    ((Path.joinAll p parts).splitOn '/').getLast? = parts.getLast? := by
  induction parts generalizing p with
  | nil => exact absurd rfl hne
  | cons part rest ih =>
    have hpart := h part List.mem_cons_self
    cases rest with
    | nil =>
      obtain ⟨front, hjoin, -⟩ := splitOn_join p (isAbsolute_eq_false hpart)
      rw [Path.joinAll, List.foldl_cons, List.foldl_nil, hjoin, List.splitOn_eq_singleton hpart,
        List.getLast?_concat, List.getLast?_singleton]
    | cons next rest =>
      rw [Path.joinAll, List.foldl_cons, ← Path.joinAll, List.getLast?_cons_cons]
      exact ih (fun q hq => h q (List.mem_cons_of_mem _ hq)) (List.cons_ne_nil _ _) _

theorem foldl_follow_join (p : Text) {q : Text} (h : Path.isAbsolute q = false)
    (before : List Text) :
    ((Path.join p q).splitOn '/').foldl (Path.follow true) before =
      (q.splitOn '/').foldl (Path.follow true) ((p.splitOn '/').foldl (Path.follow true) before) := by
  obtain ⟨front, hjoin, hp | hp⟩ := splitOn_join p h
  · rw [hjoin, hp, List.foldl_append]
  · have hskip : ∀ names : List Text, [([] : Text)].foldl (Path.follow true) names = names :=
      fun names => follow_skip (.inl rfl) names
    rw [hjoin, hp, List.foldl_append, List.foldl_append, hskip]

theorem isAbsolute_join (p : Text) {q : Text} (h : Path.isAbsolute q = false) :
    Path.isAbsolute (Path.join p q) = Path.isAbsolute p := by
  rw [Path.join, if_neg (by simp [h])]
  cases p with
  | nil => exact h
  | cons c rest => split <;> rfl

theorem isAbsolute_joinAll {parts : List Text} (h : ∀ part ∈ parts, '/' ∉ part) (p : Text) :
    Path.isAbsolute (Path.joinAll p parts) = Path.isAbsolute p := by
  induction parts generalizing p with
  | nil => rfl
  | cons part rest ih =>
    rw [Path.joinAll, List.foldl_cons, ← Path.joinAll,
      ih (fun q hq => h q (List.mem_cons_of_mem _ hq)),
      isAbsolute_join p (isAbsolute_eq_false (h part List.mem_cons_self))]

/-! ## Characters of a path -/

namespace Path

/-- A character of a joined path, other than a slash, comes from one of its parts. -/
theorem mem_join {c : Char} (hc : c ≠ '/') {p part : Text} (h : c ∈ join p part) :
    c ∈ p ∨ c ∈ part := by
  unfold join at h
  split at h
  · exact .inr h
  · split at h <;> simpa [hc] using h

theorem mem_joinAll {c : Char} (hc : c ≠ '/') {p : Text} {parts : List Text}
    (h : c ∈ joinAll p parts) : c ∈ p ∨ ∃ part ∈ parts, c ∈ part := by
  induction parts generalizing p with
  | nil => exact .inl h
  | cons part rest ih =>
    rcases ih h with hjoin | ⟨other, hother, hmem⟩
    · exact (mem_join hc hjoin).imp_right fun hmem => ⟨part, List.mem_cons_self, hmem⟩
    · exact .inr ⟨other, List.mem_cons_of_mem _ hother, hmem⟩

theorem trimRight_isPrefix (f : Char → Bool) (p : Text) : Text.trimRight f p <+: p :=
  ⟨_, trimRight_append_takeWhile f p⟩

/-- What stands before the last name of a path is a start of the path. -/
theorem parent_isPrefix (p : Text) : parent p <+: p := by
  have hcut : (cutLastSlash p).1 <+: p := trimRight_isPrefix _ p
  unfold parent headTail dropSlashes
  split
  · exact hcut
  · exact (trimRight_isPrefix _ _).trans hcut

theorem headName_isPrefix (p : Text) : (headName p).1 <+: p := by
  unfold headName
  split
  · exact (parent_isPrefix _).trans (parent_isPrefix p)
  · exact parent_isPrefix p

theorem isPrefix_join (p : Text) {part : Text} (h : '/' ∉ part) : p <+: join p part := by
  rw [join, if_neg (by simp [isAbsolute_eq_false h])]
  split <;> exact List.prefix_append _ _

theorem isPrefix_joinAll {parts : List Text} (h : ∀ part ∈ parts, '/' ∉ part) (p : Text) :
    p <+: joinAll p parts := by
  induction parts generalizing p with
  | nil => exact List.prefix_refl p
  | cons part rest ih =>
    exact (isPrefix_join p (h part List.mem_cons_self)).trans
      (ih (fun q hq => h q (List.mem_cons_of_mem _ hq)) _)

end Path

namespace Disk

variable {d : Disk}

theorem hasNul_eq_false_iff {p : Text} : hasNul p = false ↔ '\x00' ∉ p := by
  simp [hasNul]

theorem hasNul_of_isPrefix {front p : Text} (h : front <+: p) (hp : hasNul p = false) :
    hasNul front = false := by
  rw [hasNul_eq_false_iff] at hp ⊢
  exact fun hmem => hp (h.subset hmem)

theorem hasNul_pathBelow {folder name : Text} (hfolder : hasNul folder = false)
    (hname : hasNul name = false) : hasNul (pathBelow folder name) = false := by
  rw [hasNul_eq_false_iff] at hfolder hname ⊢
  intro hmem
  rcases Path.mem_joinAll (by decide) hmem with hmem | ⟨part, hpart, hmem⟩
  · exact hfolder hmem
  · exact hname ((mem_splitOn hpart).2 hmem)

theorem startNames_join {p part : Text} (h : '/' ∉ part) :
    d.startNames (Path.join p part) = d.startNames p := by
  rw [startNames, startNames, isAbsolute_join p (isAbsolute_eq_false h)]

theorem startNames_joinAll {parts : List Text} (h : ∀ part ∈ parts, '/' ∉ part) (p : Text) :
    d.startNames (Path.joinAll p parts) = d.startNames p := by
  rw [startNames, startNames, isAbsolute_joinAll h]

theorem target_join {p part : Text} (h : '/' ∉ part) :
    d.target (Path.join p part) = (Path.follow true (d.target p).reverse part).reverse := by
  rw [target, startNames_join h, foldl_follow_join p (isAbsolute_eq_false h),
    List.splitOn_eq_singleton h, target, List.reverse_reverse]
  rfl

theorem target_joinAll {parts : List Text} (h : ∀ part ∈ parts, '/' ∉ part) (p : Text) :
    d.target (Path.joinAll p parts) =
      (parts.foldl (Path.follow true) (d.target p).reverse).reverse := by
  induction parts generalizing p with
  | nil => exact (List.reverse_reverse _).symm
  | cons part rest ih =>
    have hrest : ∀ q ∈ rest, '/' ∉ q := by
      intro q hq
      exact h q (List.mem_cons_of_mem _ hq)
    rw [Path.joinAll, List.foldl_cons, ← Path.joinAll, ih hrest,
      target_join (h part List.mem_cons_self), List.reverse_reverse]
    rfl

theorem target_joinAll_of_names {parts : List Text} (h : ∀ part ∈ parts, IsName part) (p : Text) :
    d.target (Path.joinAll p parts) = d.target p ++ parts := by
  rw [target_joinAll (fun part hpart => (h part hpart).no_slash),
    foldl_follow_of_steps (fun part hpart => (h part hpart).toIsStep), List.reverse_append,
    List.reverse_reverse, List.reverse_reverse]

/-- **A name given from a folder on leads on from the target of the folder.** -/
theorem target_pathBelow (p name : Text) :
    d.target (pathBelow p name) =
      ((name.splitOn '/').foldl (Path.follow true) (d.target p).reverse).reverse := by
  apply target_joinAll
  intro part hpart
  exact (mem_splitOn hpart).1

theorem target_pathBelow_of_steps {name : Text} (h : ∀ part ∈ name.splitOn '/', IsStep part)
    (p : Text) : d.target (pathBelow p name) = d.target p ++ name.splitOn '/' := by
  rw [target_pathBelow, foldl_follow_of_steps h, List.reverse_append, List.reverse_reverse,
    List.reverse_reverse]

end Disk

/-! ## Normal paths -/

theorem rootSlashes_of_isAbsolute {p : Text} (h : Path.isAbsolute p = true) :
    Path.rootSlashes p = ['/'] ∨ Path.rootSlashes p = ['/', '/'] := by
  cases p with
  | nil => cases h
  | cons c rest =>
    have hc : c = '/' := by simpa [Path.isAbsolute] using h
    subst hc
    rw [Path.rootSlashes, List.takeWhile_cons_of_pos (by simp), List.length_cons]
    split
    · rename_i hzero
      omega
    · exact .inr rfl
    · exact .inl rfl

/-- What is left of some names leads on, and has what all of them have. -/
theorem isStep_of_mem_foldl_follow {P : Text → Prop} {names before : List Text}
    (hnames : ∀ name ∈ names, P name) (hbefore : ∀ name ∈ before, IsStep name ∧ P name) :
    ∀ name ∈ names.foldl (Path.follow true) before, IsStep name ∧ P name := by
  induction names generalizing before with
  | nil => exact hbefore
  | cons first rest ih =>
    rw [List.foldl_cons]
    have hrest : ∀ name ∈ rest, P name := by
      intro name hname
      exact hnames name (List.mem_cons_of_mem _ hname)
    apply ih hrest
    by_cases hskip : first = [] ∨ first = Path.here
    · rwa [follow_skip hskip]
    · rw [not_or] at hskip
      by_cases hup : first = Path.up
      · have hno : Path.up ∉ before := fun hmem => (hbefore _ hmem).1.ne_up rfl
        rw [hup, follow_up hno]
        intro name hname
        exact hbefore name (List.mem_of_mem_tail hname)
      · have hstep : IsStep first := ⟨hskip.1, hskip.2, hup⟩
        rw [follow_step hstep]
        rintro name (_ | ⟨_, hname⟩)
        · exact ⟨hstep, hnames first List.mem_cons_self⟩
        · exact hbefore name hname

/-- Empty names lead nowhere. -/
theorem foldl_follow_solidParts (names before : List Text) :
    (solidParts names).foldl (Path.follow true) before = names.foldl (Path.follow true) before := by
  induction names generalizing before with
  | nil => rfl
  | cons name rest ih =>
    by_cases hnil : name = []
    · subst hnil
      rw [solidParts_cons_nil, List.foldl_cons, follow_skip (.inl rfl), ih]
    · rw [solidParts_cons hnil, List.foldl_cons, List.foldl_cons, ih]

theorem names_slash_cons (p : Text) : Path.names ('/' :: p) = Path.names p := by
  have hsplit : ('/' :: p).splitOn '/' = [] :: p.splitOn '/' := List.splitOn_append_cons_self [] p
  show solidParts (('/' :: p).splitOn '/') = solidParts (p.splitOn '/')
  rw [hsplit, solidParts_cons_nil]

/-- The path of some names from the root has those names, behind empty ones. -/
theorem splitOn_ofNames {names : List Text} (h : ∀ name ∈ names, '/' ∉ name) :
    ∃ skipped, skipped.all List.isEmpty = true ∧
      (Path.ofNames names).splitOn '/' = skipped ++ names := by
  have hsplit : (Path.ofNames names).splitOn '/' = [] :: (['/'].intercalate names).splitOn '/' :=
    List.splitOn_append_cons_self [] _
  by_cases hnil : names = []
  · subst hnil
    exact ⟨[[], []], rfl, hsplit⟩
  · rw [List.splitOn_intercalate '/' h hnil] at hsplit
    exact ⟨[[]], rfl, hsplit⟩

theorem names_ofNames {names : List Text} (h : ∀ name ∈ names, IsStep name ∧ '/' ∉ name) :
    Path.names (Path.ofNames names) = names := by
  obtain ⟨skipped, hskipped, hsplit⟩ := splitOn_ofNames fun name hname => (h name hname).2
  show solidParts ((Path.ofNames names).splitOn '/') = names
  rw [hsplit, solidParts_append, solidParts_eq_nil_iff.mpr hskipped, List.nil_append]
  apply List.filter_eq_self.mpr
  intro name hname
  simpa using (h name hname).1.ne_nil

/-- The path of some names from the root leads along those names. -/
theorem foldl_follow_ofNames {names : List Text} (h : ∀ name ∈ names, IsStep name ∧ '/' ∉ name) :
    ((Path.ofNames names).splitOn '/').foldl (Path.follow true) [] = names.reverse := by
  rw [← foldl_follow_solidParts, ← List.append_nil names.reverse,
    ← foldl_follow_of_steps (fun name hname => (h name hname).1)]
  exact congrArg (List.foldl (Path.follow true) []) (names_ofNames h)

namespace Disk

variable {d : Disk}

theorem startNames_of_isAbsolute {p : Text} (h : Path.isAbsolute p = true) : d.startNames p = [] := by
  rw [startNames, if_pos h]

/-- The names of a target lead on. -/
theorem isStep_of_mem_target (hcwd : ∀ name ∈ d.cwd, IsName name) (p : Text) :
    ∀ name ∈ d.target p, IsStep name ∧ '/' ∉ name := by
  intro name hname
  apply isStep_of_mem_foldl_follow ?_ ?_ name (List.mem_reverse.mp hname)
  · intro n hn
    exact (mem_splitOn hn).1
  · intro n hn
    rw [List.mem_reverse, startNames] at hn
    split at hn
    · cases hn
    · exact ⟨(hcwd n hn).toIsStep, (hcwd n hn).no_slash⟩

/-- A normal path that starts at the root is that of the path's target, up to a second slash. -/
theorem normal_eq {p : Text} (h : Path.isAbsolute p = true) :
    Path.normal p = Path.ofNames (d.target p) ∨
      Path.normal p = '/' :: Path.ofNames (d.target p) := by
  rw [target, startNames_of_isAbsolute h, Path.normal]
  rcases rootSlashes_of_isAbsolute h with hroot | hroot
  · rw [hroot]
    exact .inl rfl
  · rw [hroot]
    exact .inr rfl

theorem names_normal (hcwd : ∀ name ∈ d.cwd, IsName name) {p : Text}
    (h : Path.isAbsolute p = true) :
    Path.isAbsolute (Path.normal p) = true ∧ Path.names (Path.normal p) = d.target p := by
  have hnames := names_ofNames (isStep_of_mem_target hcwd p)
  rcases normal_eq (d := d) h with hnormal | hnormal
  · rw [hnormal]
    exact ⟨rfl, hnames⟩
  · rw [hnormal, names_slash_cons]
    exact ⟨rfl, hnames⟩

/-- A normal path has the target of the path, if that starts at the root. -/
theorem target_normal (hcwd : ∀ name ∈ d.cwd, IsName name) {p : Text}
    (h : Path.isAbsolute p = true) : d.target (Path.normal p) = d.target p := by
  obtain ⟨habs, hnames⟩ := names_normal hcwd h
  have hsteps : ∀ name ∈ d.target p, IsStep name := by
    intro name hname
    exact (isStep_of_mem_target hcwd p name hname).1
  have hsolid : solidParts ((Path.normal p).splitOn '/') = d.target p := hnames
  rw [target, startNames_of_isAbsolute habs, ← foldl_follow_solidParts, hsolid,
    foldl_follow_of_steps hsteps, List.reverse_nil, List.append_nil, List.reverse_reverse]

theorem isAbsolute_join_cwdPath (p : Text) : Path.isAbsolute (Path.join d.cwdPath p) = true := by
  by_cases hp : Path.isAbsolute p = true
  · rw [Path.join, if_pos hp, hp]
  · rw [Bool.not_eq_true] at hp
    exact isAbsolute_join _ hp

theorem target_join_cwdPath (hcwd : ∀ name ∈ d.cwd, IsName name) (p : Text) :
    d.target (Path.join d.cwdPath p) = d.target p := by
  by_cases hp : Path.isAbsolute p = true
  · rw [Path.join, if_pos hp]
  · rw [Bool.not_eq_true] at hp
    have hnames : ∀ name ∈ d.cwd, IsStep name ∧ '/' ∉ name := by
      intro name hname
      exact ⟨(hcwd name hname).toIsStep, (hcwd name hname).no_slash⟩
    rw [target, target, startNames_of_isAbsolute (isAbsolute_join_cwdPath p),
      foldl_follow_join _ hp, startNames, hp, List.reverse_nil, cwdPath, foldl_follow_ofNames hnames]
    rfl

/-- **The normal path from the root on has the target of the path.** -/
theorem target_absolute (hcwd : ∀ name ∈ d.cwd, IsName name) (p : Text) :
    d.target (Path.absolute d.cwdPath p) = d.target p := by
  rw [Path.absolute, target_normal hcwd (isAbsolute_join_cwdPath p), target_join_cwdPath hcwd]

/-- The normal path from the root on is that of the target, up to a second slash. -/
theorem absolute_eq (hcwd : ∀ name ∈ d.cwd, IsName name) (p : Text) :
    Path.absolute d.cwdPath p = Path.ofNames (d.target p) ∨
      Path.absolute d.cwdPath p = '/' :: Path.ofNames (d.target p) := by
  rw [Path.absolute, ← target_join_cwdPath hcwd p]
  exact normal_eq (isAbsolute_join_cwdPath p)

/-- The names of the normal path from the root on are those of the target. -/
theorem names_absolute (hcwd : ∀ name ∈ d.cwd, IsName name) (p : Text) :
    Path.names (Path.absolute d.cwdPath p) = d.target p := by
  rw [Path.absolute, (names_normal hcwd (isAbsolute_join_cwdPath p)).2, target_join_cwdPath hcwd]

/-! ## Files below a folder -/

theorem isLongPath_join {p part : Text} (hpart : '/' ∉ part)
    (h : isLongPath (Path.join p part) = false) : isLongPath p = false := by
  have hle : (Utf8.encode p).length ≤ (Utf8.encode (Path.join p part)).length := by
    rw [Path.join, if_neg (by simp [isAbsolute_eq_false hpart])]
    split <;> simp [Utf8.encode]
  rw [isLongPath, decide_eq_false_iff_not] at h ⊢
  omega

theorem isLongPath_joinAll {parts : List Text} (hparts : ∀ part ∈ parts, '/' ∉ part) {p : Text}
    (h : isLongPath (Path.joinAll p parts) = false) : isLongPath p = false := by
  induction parts generalizing p with
  | nil => exact h
  | cons part rest ih =>
    rw [Path.joinAll, List.foldl_cons, ← Path.joinAll] at h
    apply isLongPath_join (hparts part List.mem_cons_self)
    apply ih ?_ h
    intro q hq
    exact hparts q (List.mem_cons_of_mem _ hq)

theorem LeadsTo.join (hd : d.Plain) {p part : Text} {place : Place} (h : d.LeadsTo p place)
    (hfolder : d.root.node? place.names = some .folder) (hpart : IsName part)
    (hshort : isLongPath (Path.join p part) = false) :
    d.LeadsTo (Path.join p part) (.slot place.names part false) := by
  have hmore : [part].all List.isEmpty = false := by simp [hpart.ne_nil]
  have hstart := startNames_join (d := d) (p := p) hpart.no_slash
  obtain ⟨front, hjoin, hp⟩ := splitOn_join p (isAbsolute_eq_false hpart.no_slash)
  rw [List.splitOn_eq_singleton hpart.no_slash] at hjoin
  have hwalk := h.walks.append hd.proper hfolder hmore (.last hpart.toIsStep rfl)
  refine ⟨?_, hshort, hstart ▸ h.start, ?_⟩
  · intro hnil
    have hmem : part ∈ ([] : Text).splitOn '/' := by rw [← hnil, hjoin]; simp
    exact hpart.ne_nil (by simpa using hmem)
  · rw [hstart, hjoin]
    rcases hp with hp | hp
    · rwa [hp] at hwalk
    · rw [hp, List.append_assoc] at hwalk
      exact hwalk.drop_empty hmore

theorem reaches_joinAll (hd : d.Plain) {parts : List Text} (hne : parts ≠ []) {p : Text}
    {place : Place} {content : Bytes} (hnul : hasNul (Path.joinAll p parts) = false)
    (hshort : isLongPath (Path.joinAll p parts) = false) (h : d.LeadsTo p place)
    (hnode : d.root.node? (place.names ++ parts) = some (.file content)) :
    d.Reaches (Path.joinAll p parts) := by
  have hnames : ∀ part ∈ parts, IsName part := by
    intro part hpart
    exact hd.proper.isName_of_node? (by rw [hnode]; simp) part (List.mem_append_right _ hpart)
  induction parts generalizing p place with
  | nil => exact absurd rfl hne
  | cons part rest ih =>
    have hpart := hnames part List.mem_cons_self
    have hrest : ∀ q ∈ rest, IsName q := by
      intro q hq
      exact hnames q (List.mem_cons_of_mem _ hq)
    rw [Path.joinAll, List.foldl_cons, ← Path.joinAll] at hnul hshort ⊢
    have hjoin := isLongPath_joinAll (fun q hq => (hrest q hq).no_slash) hshort
    have hfolder : d.root.node? place.names = some .folder :=
      Folder.node?_dir_of_append hne (by rw [hnode]; simp)
    have hleads := h.join hd hfolder hpart hjoin
    by_cases hnil : rest = []
    · subst hnil
      exact ⟨hnul, place.names, part, hleads, hpart.short⟩
    · rw [List.append_cons] at hnode
      exact ih hnil hnul hshort hleads hnode hrest

/-- **A file below a folder is reached by its name from there.** -/
theorem reaches_pathBelow (hd : d.Plain) {folder name : Text} {content : Bytes}
    (hfolder : d.isFolder folder = true) (hnul : hasNul (pathBelow folder name) = false)
    (hshort : isLongPath (pathBelow folder name) = false)
    (hnode : d.root.node? (d.target folder ++ name.splitOn '/') = some (.file content)) :
    d.Reaches (pathBelow folder name) := by
  obtain ⟨-, ⟨place, hleads⟩, -⟩ := isFolder_eq_true hd hfolder
  rw [← hleads.names_eq hd] at hnode
  exact reaches_joinAll hd (List.splitOn_ne_nil _ _) hnul hshort hleads hnode

end Disk

end LessonPages
