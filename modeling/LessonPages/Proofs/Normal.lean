import LessonPages.Proofs.Paths

/-!
# Normal paths and links

Making a path normal takes a name away with the two dots behind it. Where the name is that of a link,
the way with the dots leads to another folder than the way without both. Without dots, or without
links, a path and its normal form lead to one folder.

* `Thinned` — names without some that stay where they are; `Route.thin` — they lead to the same names.
* `Disk.list_absolute` — when the normal form of a path is listed like the path.
* `Route.append`, `Disk.list_joinAll` — a folder below a folder is listed by the names in between.
-/

namespace LessonPages

variable {root : Folder} {links : Nat} {dir names names' rest rest' : List Text} {name : Text}
  {place : Place}

/-- Names from which some empty ones and some single dots have been left out. -/
inductive Thinned : List Text → List Text → Prop where
  | nil : Thinned [] []
  | drop {name : Text} {rest rest' : List Text} (hname : name = [] ∨ name = Path.here) :
      Thinned rest rest' → Thinned (name :: rest) rest'
  | keep {name : Text} {rest rest' : List Text} :
      Thinned rest rest' → Thinned (name :: rest) (name :: rest')

namespace Thinned

theorem append_left (h : Thinned rest rest') (front : List Text) :
    Thinned (front ++ rest) (front ++ rest') := by
  induction front with
  | nil => exact h
  | cons name front ih => exact .keep ih

theorem all_isEmpty (h : Thinned rest rest') (hrest : rest.all List.isEmpty = true) :
    rest'.all List.isEmpty = true := by
  induction h with
  | nil => exact hrest
  | drop _ _ ih =>
    rw [List.all_cons, Bool.and_eq_true] at hrest
    exact ih hrest.2
  | keep _ ih =>
    rw [List.all_cons, Bool.and_eq_true] at hrest ⊢
    exact ⟨hrest.1, ih hrest.2⟩

/-- Names that lead on are not left out. -/
theorem exists_of_step (h : Thinned (name :: rest) names') (hname : name ≠ [] ∧ name ≠ Path.here) :
    ∃ rest', names' = name :: rest' ∧ Thinned rest rest' := by
  cases h with
  | drop hskip _ => exact (hskip.elim hname.1 hname.2).elim
  | keep h => exact ⟨_, rfl, h⟩

/-- Without two dots, going through names keeps those that lead on. -/
theorem exists_foldl_follow (hup : Path.up ∉ names) (before : List Text) :
    ∃ names', Thinned names names' ∧
      names.foldl (Path.follow true) before = names'.reverse ++ before := by
  induction names generalizing before with
  | nil => exact ⟨[], .nil, rfl⟩
  | cons name rest ih =>
    rw [List.mem_cons, not_or] at hup
    by_cases hskip : name = [] ∨ name = Path.here
    · obtain ⟨rest', hthin, hfold⟩ := ih hup.2 before
      exact ⟨rest', .drop hskip hthin, by rw [List.foldl_cons, follow_skip hskip, hfold]⟩
    · rw [not_or] at hskip
      obtain ⟨rest', hthin, hfold⟩ := ih hup.2 (name :: before)
      refine ⟨name :: rest', .keep hthin, ?_⟩
      rw [List.foldl_cons, follow_step ⟨hskip.1, hskip.2, Ne.symm hup.1⟩, hfold, List.reverse_cons,
        List.append_assoc]
      rfl

end Thinned

namespace Route

/-- A route may start in front of the folder that it starts from. -/
theorem into_folder (h : Route root .look links (dir ++ [name]) rest place) (hname : IsStep name)
    (hshort : isLongName name = false) (hfolder : root.node? (dir ++ [name]) = some .folder) :
    ∃ place', Route root .look links dir (name :: rest) place' ∧ place'.names = place.names := by
  by_cases hrest : rest.all List.isEmpty = true
  · rw [eq_folder_of_empty h hrest]
    refine ⟨_, .last hname hrest ?_, rfl⟩
    intro target hlink
    rw [hfolder] at hlink
    cases hlink
  · rw [Bool.not_eq_true] at hrest
    exact ⟨place, .into hname hrest hshort hfolder h, rfl⟩

/-- **A route leads to the same names without those that stay where they are.** -/
theorem thin (h : Route root .look links dir names place) (hthin : Thinned names names') :
    ∃ place', Route root .look links dir names' place' ∧ place'.names = place.names := by
  induction h generalizing names' with
  | stay =>
    cases hthin
    exact ⟨_, .stay, rfl⟩
  | skip hname _ ih =>
    cases hthin with
    | drop _ hthin => exact ih hthin
    | keep hthin =>
      obtain ⟨place', hroute, hnames⟩ := ih hthin
      exact ⟨place', .skip hname hroute, hnames⟩
  | up _ ih =>
    obtain ⟨rest', rfl, hrest⟩ := hthin.exists_of_step (by decide)
    obtain ⟨place', hroute, hnames⟩ := ih hrest
    exact ⟨place', .up hroute, hnames⟩
  | last hname hempty hlink =>
    obtain ⟨rest', rfl, hrest⟩ := hthin.exists_of_step ⟨hname.ne_nil, hname.ne_here⟩
    exact ⟨_, .last hname (hrest.all_isEmpty hempty) hlink, rfl⟩
  | into hname _ hshort hfolder _ ih =>
    obtain ⟨rest', rfl, hrest⟩ := hthin.exists_of_step ⟨hname.ne_nil, hname.ne_here⟩
    obtain ⟨place', hroute, hnames⟩ := ih hrest
    obtain ⟨place'', hroute, hnames'⟩ := hroute.into_folder hname hshort hfolder
    exact ⟨place'', hroute, hnames'.trans hnames⟩
  | @link links dir rest name target place hname hlink _ hshort _ ih =>
    obtain ⟨rest', rfl, hrest⟩ := hthin.exists_of_step ⟨hname.ne_nil, hname.ne_here⟩
    obtain ⟨place', hroute, hnames⟩ := ih (hrest.append_left (target.splitOn '/'))
    refine ⟨place', .link hname hlink (fun _ => rfl) ?_ hroute, hnames⟩
    intro hmore
    apply hshort
    rw [← Bool.not_eq_true]
    intro hempty
    rw [hrest.all_isEmpty hempty] at hmore
    cases hmore

/-- A route may start at the first of the folders that lead to its start. -/
theorem along {front : List Text} (h : Route root .look links (dir ++ front) names place)
    (hroot : root.Proper) (hfolder : root.node? (dir ++ front) = some .folder) :
    ∃ place', Route root .look links dir (front ++ names) place' ∧ place'.names = place.names := by
  have hfront := hroot.isName_of_node? (by rw [hfolder]; simp)
  induction front generalizing dir with
  | nil =>
    rw [List.append_nil] at h
    exact ⟨place, h, rfl⟩
  | cons name front ih =>
    rw [List.append_cons] at h hfolder hfront
    obtain ⟨place', hroute, hnames⟩ := ih h hfolder hfront
    have hname : IsName name := hfront name (by simp)
    obtain ⟨place'', hroute, hnames'⟩ := hroute.into_folder hname.toIsStep hname.short
      (Folder.node?_prefix_of_folder hfolder)
    exact ⟨place'', hroute, hnames'.trans hnames⟩

/-- **A route goes on from the folder at which another one ends**, if that needs no more links. -/
theorem append {more : List Text} {place' : Place} (hroot : root.Proper)
    (h : Route root .look links dir names place)
    (hfolder : root.node? place.names = some .folder) (hmore : more.all List.isEmpty = false)
    (h' : ∀ links, Route root .look links place.names more place') :
    Route root .look links dir (names ++ more) place' := by
  have hgoes : ∀ rest : List Text, (rest ++ more).all List.isEmpty = false := by
    intro rest
    rw [List.all_append, hmore, Bool.and_false]
  induction h with
  | stay => exact h' _
  | skip hname _ ih => exact .skip hname (ih hfolder h')
  | up _ ih => exact .up (ih hfolder h')
  | @last links dir rest name hname hrest _ =>
    -- the name at the end of the first route was not measured; as a folder's name it is short
    have hshort := (hroot.isName_of_node? (by rw [hfolder]; simp) name (by simp [Place.names])).short
    exact .into hname (hgoes rest) hshort hfolder ((h' _).skip_all hrest)
  | into hname _ hshort hinto _ ih => exact .into hname (hgoes _) hshort hinto (ih hfolder h')
  | @link links dir rest name target place hname hlink _ _ _ ih =>
    have hshort := (hroot.isName_of_node? (by rw [hlink]; simp) name (by simp)).short
    have hroute := ih hfolder h'
    rw [List.append_assoc] at hroute
    refine .link hname hlink ?_ (fun _ => hshort) hroute
    intro hempty
    exact (Bool.false_ne_true ((hgoes rest).symm.trans hempty)).elim

end Route

/-! ## The normal path from the root on -/

namespace Disk

variable {d : Disk} {path : Text} {inside : Folder}

theorem hasNul_absolute (hd : d.Named) (h : hasNul path = false) :
    hasNul (Path.absolute d.cwdPath path) = false := by
  have hpath : '\x00' ∉ path := by simpa [hasNul] using h
  have htarget : ∀ name ∈ d.target path, IsStep name ∧ '\x00' ∉ name := by
    intro name hname
    apply isStep_of_mem_foldl_follow ?_ ?_ name (List.mem_reverse.mp hname)
    · intro n hn hmem
      exact hpath ((mem_splitOn hn).2 hmem)
    · intro n hn
      rw [List.mem_reverse, startNames] at hn
      split at hn
      · cases hn
      · exact ⟨(hd.cwd n hn).toIsStep, (hd.cwd n hn).no_nul⟩
  have hnames : '\x00' ∉ Path.ofNames (d.target path) := by
    rintro (_ | ⟨_, hmem⟩)
    rcases mem_of_mem_intercalate hmem with hslash | ⟨name, hname, hmem⟩
    · cases hslash
    · exact (htarget name hname).2 hmem
  rcases absolute_eq hd.cwd path with habs | habs
  · rw [habs]
    simpa [hasNul] using hnames
  · rw [habs]
    simpa [hasNul] using hnames

/-- Where a path does not go up, or no link stands, the names of its target lead where it leads. -/
theorem Routed.exists_route_target (hd : d.Named) (h : d.Routed .look path place)
    (hfolder : d.root.node? place.names = some .folder)
    (hup : Path.up ∉ path.splitOn '/' ∨ d.root.Linkless) :
    ∃ place', Route d.root .look linkLimit [] (d.target path) place' ∧
      place'.names = place.names := by
  rcases hup with hup | hlinkless
  · obtain ⟨names, hthin, hfold⟩ := Thinned.exists_foldl_follow hup (d.startNames path).reverse
    obtain ⟨first, hfirst, hsame⟩ := h.route.thin hthin
    have hfront : Route d.root .look linkLimit ([] ++ d.startNames path) names first := hfirst
    obtain ⟨place', hroute, hsame'⟩ := hfront.along hd.proper h.start
    refine ⟨place', ?_, hsame'.trans hsame⟩
    rwa [target, hfold, List.reverse_append, List.reverse_reverse, List.reverse_reverse]
  · have hplain : d.Plain := ⟨hd.proper, hlinkless, hd.cwd⟩
    have hleads := h.leadsTo hlinkless
    rw [hleads.names_eq hplain] at hfolder ⊢
    have hstay : Route d.root .look linkLimit ([] ++ d.target path) [] (.folder (d.target path)) :=
      .stay
    obtain ⟨place', hroute, hsame⟩ := hstay.along hd.proper hfolder
    rw [List.append_nil] at hroute
    exact ⟨place', hroute, hsame⟩

/-- **Where a path does not go up, or no link stands, its normal form is listed as it is, unless that is
too long.** -/
theorem list_absolute (hd : d.Named) (hlist : d.list path = .ok inside)
    (hshort : isLongPath (Path.absolute d.cwdPath path) = false)
    (hup : Path.up ∉ path.splitOn '/' ∨ d.root.Linkless) :
    d.list (Path.absolute d.cwdPath path) = .ok inside := by
  obtain ⟨hnul, place, hplace, hget⟩ := list_eq_ok hlist
  obtain ⟨place', hroute, hsame⟩ := (locate_eq_ok_iff_routed.mp hplace).exists_route_target hd
    (Folder.node?_eq_folder_iff.mpr ⟨inside, hget⟩) hup
  obtain ⟨skipped, hskipped, hsplit⟩ :=
    splitOn_ofNames fun name hname => (isStep_of_mem_target hd.cwd path name hname).2
  have hstart : Path.isAbsolute (Path.absolute d.cwdPath path) = true :=
    (names_normal hd.cwd (isAbsolute_join_cwdPath path)).1
  have hnil : Path.absolute d.cwdPath path ≠ [] := by
    intro hnil
    rw [hnil] at hstart
    cases hstart
  -- the normal path has the names of the target, behind empty ones
  have hparts : ∃ skipped, skipped.all List.isEmpty = true ∧
      (Path.absolute d.cwdPath path).splitOn '/' = skipped ++ d.target path := by
    rcases absolute_eq hd.cwd path with habs | habs
    · exact ⟨skipped, hskipped, by rw [habs, hsplit]⟩
    · refine ⟨[] :: skipped, hskipped, ?_⟩
      have hmore : ('/' :: Path.ofNames (d.target path)).splitOn '/' =
          [] :: (Path.ofNames (d.target path)).splitOn '/' := List.splitOn_append_cons_self [] _
      rw [habs, hmore, hsplit]
      rfl
  obtain ⟨front, hfront, hparts⟩ := hparts
  have hlocate : d.locate .look (Path.absolute d.cwdPath path) = .ok place' := by
    refine locate_eq_ok_iff_routed.mpr ⟨hnil, hshort, ?_, ?_⟩
    · rw [startNames_of_isAbsolute hstart]
      rfl
    · rw [startNames_of_isAbsolute hstart, hparts]
      exact hroute.skip_all hfront
  refine list_eq_ok_iff_look.mpr ⟨hasNul_absolute hd hnul, ?_⟩
  rw [look, hlocate]
  exact entryAt_of_get? hd.proper (hsame ▸ hget)

/-! ## Listing a subfolder -/

variable {below : Folder}

theorem hasNul_join {name : Text} (hpath : hasNul path = false) (hname : IsName name) :
    hasNul (Path.join path name) = false := by
  rw [hasNul_eq_false_iff] at hpath ⊢
  intro hmem
  exact (Path.mem_join (by decide) hmem).elim hpath hname.no_nul

/-- A folder in a folder is listed by its name from there. -/
theorem list_join (hd : d.Named) {name : Text} (hlist : d.list path = .ok inside)
    (hbelow : inside.find? name = some (.folder below))
    (hshort : isLongPath (Path.join path name) = false) :
    d.list (Path.join path name) = .ok below := by
  obtain ⟨hnul, place, hplace, hget⟩ := list_eq_ok hlist
  obtain ⟨-, -, hstart, hroute⟩ := locate_eq_ok_iff_routed.mp hplace
  have hget' : d.root.get? (place.names ++ [name]) = some (.folder below) := by
    rw [Folder.get?_append hget, Folder.get?, hbelow]
    rfl
  have hnode := Folder.node?_eq_folder_iff.mpr ⟨below, hget'⟩
  have hname : IsName name := hd.proper.isName_of_node? (by rw [hnode]; simp) name (by simp)
  have hlast : ∀ links, Route d.root .look links place.names [name] (.slot place.names name false) := by
    intro links
    refine .last hname.toIsStep rfl ?_
    intro target hlink
    rw [hnode] at hlink
    cases hlink
  have happend := hroute.append hd.proper (Folder.node?_eq_folder_iff.mpr ⟨inside, hget⟩)
    (by simp [hname.ne_nil]) hlast
  -- the path and the name are put together without an empty name in between
  obtain ⟨front, hjoin, hparts⟩ := splitOn_join path (isAbsolute_eq_false hname.no_slash)
  rw [List.splitOn_eq_singleton hname.no_slash] at hjoin
  have hthin : Thinned (path.splitOn '/' ++ [name]) (front ++ [name]) := by
    rcases hparts with hparts | hparts
    · rw [hparts]
      exact Thinned.append_left (.keep .nil) front
    · rw [hparts, List.append_assoc]
      exact Thinned.append_left (.drop (.inl rfl) (.keep .nil)) front
  obtain ⟨place', hroute', hsame⟩ := happend.thin hthin
  have hlocate : d.locate .look (Path.join path name) = .ok place' := by
    refine locate_eq_ok_iff_routed.mpr ⟨?_, hshort, ?_, ?_⟩
    · intro hnil
      have hmem : name ∈ ([] : Text).splitOn '/' := by
        rw [← hnil, hjoin]
        simp
      exact hname.ne_nil (by simpa using hmem)
    · rwa [startNames_join hname.no_slash]
    · rwa [startNames_join hname.no_slash, hjoin]
  refine list_eq_ok_iff_look.mpr ⟨hasNul_join hnul hname, ?_⟩
  rw [look, hlocate]
  exact entryAt_of_get? hd.proper (hsame ▸ hget')

/-- **A folder below a folder is listed by the names that lead to it from there.** -/
theorem list_joinAll (hd : d.Named) {names : List Text} (hlist : d.list path = .ok inside)
    (hbelow : inside.get? names = some (.folder below))
    (hslash : ∀ name ∈ names, '/' ∉ name)
    (hshort : isLongPath (Path.joinAll path names) = false) :
    d.list (Path.joinAll path names) = .ok below := by
  induction names generalizing path inside with
  | nil =>
    cases hbelow
    exact hlist
  | cons name rest ih =>
    obtain ⟨next, hnext, hrest⟩ := Folder.find?_of_get?_cons hbelow
    have hslash' : ∀ n ∈ rest, '/' ∉ n := fun n hn => hslash n (List.mem_cons_of_mem _ hn)
    rw [Path.joinAll, List.foldl_cons, ← Path.joinAll] at hshort ⊢
    exact ih (list_join hd hlist hnext (isLongPath_joinAll hslash' hshort)) hrest hslash' hshort

end Disk

end LessonPages
