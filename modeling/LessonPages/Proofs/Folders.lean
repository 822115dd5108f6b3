import LessonPages.Proofs.Rules

/-!
# Folders that are there

A path that leads on from a folder leads through it, so the folder can be asked for by itself. To make a
folder that is there changes nothing. A folder that has been made is there afterwards, unless its path
ends in a dot: then it is made only as far as to the dot, whatever comes of that. What has not come of it
the first time does not come of it the second time.

* `Disk.LeadsTo.isFolder_front`, `Disk.Reaches.isFolder_parent` — the folders that a path leads through.
* `Disk.ensureFolders_of_isFolder` — a folder that is there.
* `Disk.Makes.isFolder` — a folder that has been made.
* `Disk.Makes.again`, `Disk.ensureFolders_again` — a folder that only seems to have been made.
-/

namespace LessonPages

/-! ## The path before the last name -/

namespace Path

theorem names_parent_append (p : Text) :
    names p = names (parent p) ++ solidParts [(headTail p).2] := by
  obtain ⟨hmem, hsplit⟩ := splitOn_cutLastSlash p
  have hp := hsplit _ (mem_splitOn hmem).1
  rw [cutLastSlash_append] at hp
  show solidParts (p.splitOn '/') = _
  rw [names_parent, hp, List.dropLast_concat, solidParts_append]
  rfl

/-- The last name of a path comes behind the names of the path before it. -/
theorem names_headName {p : Text} (h : (headName p).2 ≠ []) :
    names p = names (headName p).1 ++ [(headName p).2] := by
  unfold headName at h ⊢
  have happend := names_parent_append p
  split at h
  · rename_i htail
    rw [if_pos htail]
    have happend' : names (parent p) = _ ++ solidParts [(headTail (headTail p).1).2] :=
      names_parent_append (parent p)
    rw [solidParts_cons h] at happend'
    rw [htail, solidParts_cons_nil, solidParts_nil, List.append_nil] at happend
    exact happend.trans happend'
  · rename_i htail
    rw [if_neg htail]
    rwa [solidParts_cons h] at happend

/-- Nothing stands behind the last slash of a path only if the path ends there. -/
theorem getLast?_of_splitOn {p : Text} (h : (p.splitOn '/').getLast? = some []) :
    p = [] ∨ p.getLast? = some '/' := by
  obtain ⟨hmem, hsplit⟩ := splitOn_cutLastSlash p
  have hp := hsplit _ (mem_splitOn hmem).1
  rw [cutLastSlash_append] at hp
  rw [hp, List.getLast?_concat, Option.some.injEq, cutLastSlash, List.reverse_eq_nil_iff,
    List.takeWhile_eq_nil_iff] at h
  rcases List.eq_nil_or_concat p with rfl | ⟨front, c, rfl⟩
  · exact .inl rfl
  · right
    simpa using h

theorem dropSlashes_ne_nil {p : Text} (h : p ≠ []) : dropSlashes p ≠ [] := by
  unfold dropSlashes
  split
  · exact h
  · rename_i hall
    intro hnil
    rw [Text.trimRight, List.reverse_eq_nil_iff, List.dropWhile_eq_nil_iff] at hnil
    exact hall (List.all_eq_true.mpr fun c hc => hnil c (List.mem_reverse.mpr hc))

/-- A path without the slashes at its end has none there, unless it has nothing else. -/
theorem names_eq_nil_of_splitOn_dropSlashes {p : Text}
    (h : ((dropSlashes p).splitOn '/').getLast? = some []) : names (dropSlashes p) = [] := by
  rw [names_dropSlashes]
  unfold dropSlashes at h
  split at h
  · rename_i hslashes
    refine solidParts_eq_nil_iff.mpr (List.all_eq_true.mpr ?_)
    intro part hpart
    obtain ⟨hnot, hsub⟩ := mem_splitOn hpart
    rw [List.isEmpty_iff, List.eq_nil_iff_forall_not_mem]
    intro c hc
    have hslash := List.all_eq_true.mp hslashes c (hsub hc)
    rw [beq_iff_eq] at hslash
    exact hnot (hslash ▸ hc)
  · rename_i hslashes
    rcases getLast?_of_splitOn h with hnil | hlast
    · have hne : p ≠ [] := by
        rintro rfl
        exact hslashes rfl
      exact (dropSlashes_ne_nil hne (by rw [dropSlashes, if_neg hslashes, hnil])).elim
    · have hnot := List.head?_dropWhile_not (· == '/') p.reverse
      rw [Text.trimRight, List.getLast?_reverse] at hlast
      rw [hlast] at hnot
      simp at hnot

theorem names_eq_nil_of_splitOn_headName {p : Text}
    (h : ((headName p).1.splitOn '/').getLast? = some []) : names (headName p).1 = [] := by
  unfold headName at h ⊢
  split at h
  · rename_i htail
    rw [if_pos htail]
    exact names_eq_nil_of_splitOn_dropSlashes h
  · rename_i htail
    rw [if_neg htail]
    exact names_eq_nil_of_splitOn_dropSlashes h

end Path

namespace Disk

variable {d d' d'' : Disk} {path front : Text} {more : List Text} {place : Place}
  {spots : List (List Text)}

theorem isLongPath_of_isPrefix (h : front <+: path) (hpath : isLongPath path = false) :
    isLongPath front = false := by
  obtain ⟨rest, rfl⟩ := h
  rw [isLongPath, decide_eq_false_iff_not, Utf8.encode_append, List.length_append] at hpath
  rw [isLongPath, decide_eq_false_iff_not]
  omega

theorem startNames_of_isPrefix (h : front <+: path) (hne : front ≠ []) :
    d.startNames front = d.startNames path := by
  obtain ⟨rest, rfl⟩ := h
  obtain ⟨c, front, rfl⟩ := List.exists_cons_of_ne_nil hne
  rfl

/-! ## Folders on the way -/

/-- A path that leads to a folder leads to something. -/
theorem holds_of_isFolder (h : d.isFolder path = true) : d.holds path = true := by
  unfold isFolder at h
  unfold holds
  split at h
  · rename_i hfind
    rw [hfind]
    rfl
  · cases h

theorem LeadsTo.isFolder (hd : d.Plain) (h : d.LeadsTo path place) (hnul : hasNul path = false)
    (hfolder : d.root.node? place.names = some .folder) : d.isFolder path = true := by
  obtain ⟨inside, hget⟩ := Folder.node?_eq_folder_iff.mp hfolder
  refine isFolder_iff_list.mpr ⟨inside, list_eq_ok_iff_look.mpr ⟨hnul, ?_⟩⟩
  rw [look, (locate_eq_ok_iff hd.linkless .look).mpr h]
  exact entryAt_of_get? hd.proper hget

/-- A folder stays one while more is added. -/
theorem Extends.isFolder (hext : d.Extends d' spots) (hd : d.Plain) (h : d.isFolder path = true) :
    d'.isFolder path = true := by
  obtain ⟨hnul, ⟨place, hleads⟩, hfolder⟩ := isFolder_eq_true hd h
  rw [← hleads.names_eq hd] at hfolder
  exact (hleads.mono hext.cwd_eq fun _ => hext.folder).isFolder (hext.plain hd) hnul
    (hext.folder hfolder)

/-- **A path that leads on from a folder leads through it.** -/
theorem LeadsTo.isFolder_front (hd : d.Plain) (h : d.LeadsTo path place)
    (hnul : hasNul path = false) (hfront : front <+: path) (hne : front ≠ [])
    (hnames : Path.names path = Path.names front ++ more) (hmore : more ≠ []) :
    d.isFolder front = true := by
  obtain ⟨place', fewer, rest, hroute, hfolder, -, -⟩ :=
    (h.routed hd.linkless .look).route.through h.start hnames hmore
  have hstart := startNames_of_isPrefix (d := d) hfront hne
  have hleads : d.LeadsTo front place' :=
    ⟨hne, isLongPath_of_isPrefix hfront h.short, hstart ▸ h.start, hstart ▸ hroute.walks hd.linkless⟩
  exact hleads.isFolder hd (hasNul_of_isPrefix hfront hnul) hfolder

/-- A path that a file can have ends in a name that leads on. -/
theorem Reaches.getLast?_isStep (hd : d.Plain) (h : d.Reaches path) :
    ∃ n, (path.splitOn '/').getLast? = some n ∧ IsStep n := by
  obtain ⟨-, dir, name, hleads, -⟩ := h
  exact (hleads.routed hd.linkless .look).route.getLast?_isStep rfl

/-- The path before a file's name leads to a folder. -/
theorem Reaches.isFolder_parent (hd : d.Plain) (h : d.Reaches path) (hne : Path.parent path ≠ []) :
    d.isFolder (Path.parent path) = true := by
  obtain ⟨n, hlast, hstep⟩ := h.getLast?_isStep hd
  obtain ⟨hnul, dir, name, hleads, -⟩ := h
  have hnames : Path.names path = Path.names (Path.parent path) ++ [n] := by
    show solidParts (path.splitOn '/') = _
    rw [Path.names_parent, ← List.dropLast_append_getLast? n hlast, List.dropLast_concat,
      solidParts_append, solidParts_cons hstep.ne_nil]
    rfl
  exact hleads.isFolder_front hd hnul (Path.parent_isPrefix path) hne hnames (by simp)

/-- The path from which a file's path goes on leads to a folder. -/
theorem Reaches.isFolder_joinAll (hd : d.Plain) {parts : List Text}
    (hslash : ∀ part ∈ parts, '/' ∉ part) (hparts : parts ≠ [])
    (h : d.Reaches (Path.joinAll path parts)) (hne : path ≠ []) : d.isFolder path = true := by
  obtain ⟨n, hlast, hstep⟩ := h.getLast?_isStep hd
  obtain ⟨hnul, dir, name, hleads, -⟩ := h
  rw [getLast?_splitOn_joinAll hslash hparts] at hlast
  have hmore : solidParts parts ≠ [] := by
    intro hnil
    rw [solidParts_eq_nil_iff, List.all_eq_true] at hnil
    exact hstep.ne_nil (by simpa using hnil n (List.mem_of_getLast? hlast))
  exact hleads.isFolder_front hd hnul (Path.isPrefix_joinAll hslash path) hne
    (solidParts_joinAll hslash path) hmore

/-! ## Folders that are made -/

theorem ensureFolder_of_isFolder (hd : d.Plain) (h : d.isFolder path = true) :
    d.ensureFolder path = (d, .ok ()) := by
  obtain ⟨hnul, -, hfolder⟩ := isFolder_eq_true hd h
  unfold ensureFolder
  split
  · rename_i hmade
    obtain ⟨dir, name, htarget, -, -, hnone, -⟩ := makeFolder_eq_ok hd hmade
    rw [htarget, hnone] at hfolder
    cases hfolder
  · rw [if_pos h]
  · rename_i hmade
    unfold makeFolder at hmade
    rw [if_neg (by simp [hnul])] at hmade
    split at hmade <;> cases hmade

/-- **To make a folder that is there changes nothing.** -/
theorem ensureFolders_of_isFolder (hd : d.Plain) (h : d.isFolder path = true) :
    d.ensureFolders path = (d, .ok ()) := by
  obtain ⟨hnul, ⟨place, hleads⟩, -⟩ := isFolder_eq_true hd h
  have hhead : ¬ ((Path.headName path).2 ≠ [] ∧ (Path.headName path).1 ≠ [] ∧
      d.holds (Path.headName path).1 = false) := by
    rintro ⟨htail, hne, hholds⟩
    have hfront := hleads.isFolder_front hd hnul (Path.headName_isPrefix path) hne
      (Path.names_headName htail) (by simp)
    rw [holds_of_isFolder hfront] at hholds
    cases hholds
  rw [ensureFolders, makeFolders, dif_neg hhead, ensureFolder_of_isFolder hd h]

theorem isFolder_of_ensureFolder (hd : d.Plain) (h : d.ensureFolder path = (d', .ok ())) :
    d'.isFolder path = true := by
  unfold ensureFolder at h
  split at h
  · rename_i hmade
    cases h
    obtain ⟨hnul, dir, name, slash, hrouted, -, hnone, hd'⟩ := makeFolder_eq_ok_routed hmade
    have hdir : d.root.node? dir = some .folder := hrouted.base_folder
    have hext := makeFolder_extends hd hmade
    have hleads := (hrouted.leadsTo hd.linkless).mono hext.cwd_eq fun _ => hext.folder
    refine hleads.isFolder (hext.plain hd) hnul ?_
    rw [hd', Place.names, Folder.node?_set .empty hdir (by rw [hnone]; simp), if_pos rfl]
    rfl
  · obtain ⟨rfl, hok⟩ := Prod.mk.inj h
    by_contra hnot
    rw [if_neg hnot] at hok
    cases hok
  · cases h

/-- **A folder that has been made is there, unless its path ends in a dot.** -/
theorem Makes.isFolder {result : Except DiskFault Unit} (hd : d.Plain) (h : Makes d path d' result)
    (hresult : result = .ok ()) (hhere : (Path.headName path).2 ≠ Path.here) :
    d'.isFolder path = true := by
  subst hresult
  cases h with
  | atOnce _ hlast => exact isFolder_of_ensureFolder hd hlast
  | behind _ hmade _ _ hlast => exact isFolder_of_ensureFolder ((hmade.extends hd).plain hd) hlast
  | toDot _ _ _ hdot => exact (hhere hdot).elim

theorem makes_of_ensureFolders (h : d.ensureFolders path = (d', .ok ())) :
    Makes d path d' (.ok ()) := by
  have hmakes := makes d path
  unfold ensureFolders at h
  split at h
  · cases h
  · rename_i hmade
    cases h
    rwa [hmade] at hmakes

/-! ## Folders that are made as far as to a dot -/

/-- A path that ends in a dot leads to a folder, if anywhere. -/
theorem LeadsTo.isFolder_of_here (hd : d.Plain) (h : d.LeadsTo path place)
    (hnul : hasNul path = false) (hhere : (Path.headName path).2 = Path.here) :
    d.isFolder path = true := by
  refine h.isFolder hd hnul ?_
  cases place with
  | folder names => exact h.base_folder
  | slot dir name slash =>
    obtain ⟨hlast, hstep⟩ := h.walks.getLast?_solidParts rfl
    have hnames := Path.names_headName (p := path) (by rw [hhere]; decide)
    rw [show solidParts (path.splitOn '/') = _ from hnames, List.getLast?_concat, hhere] at hlast
    exact (hstep.ne_here (Option.some.inj hlast).symm).elim

/-- A folder whose path ends in a dot is not made by itself. -/
theorem ensureFolder_of_here (hd : d.Plain) (hhere : (Path.headName path).2 = Path.here)
    (hnot : d.isFolder path = false) :
    ∃ fault, d.ensureFolder path = (d, .error fault) ∧ fault.isAlreadyExists = false := by
  unfold ensureFolder
  split
  · rename_i hmade
    obtain ⟨hnul, dir, name, slash, hrouted, -⟩ := makeFolder_eq_ok_routed hmade
    rw [(hrouted.leadsTo hd.linkless).isFolder_of_here hd hnul hhere] at hnot
    cases hnot
  · rename_i r hmade
    refine ⟨.refused r, by rw [if_neg (by simp [hnot])], ?_⟩
    by_contra hexists
    rw [Bool.not_eq_false] at hexists
    obtain ⟨hnul, place, hleads, -⟩ := leadsTo_of_alreadyExists hd hmade hexists
    rw [hleads.isFolder_of_here hd hnul hhere] at hnot
    cases hnot
  · exact ⟨.nulInPath, rfl, rfl⟩

/-- Where folders are not made because something is there, the path leads to it. -/
theorem Makes.holds {result : Except DiskFault Unit} (hd : d.Plain) (h : Makes d path d' result)
    {fault : DiskFault} (hresult : result = .error fault) (hfault : fault.isAlreadyExists = true)
    (hslash : (path.splitOn '/').getLast? = some [] → Path.names path = []) :
    d'.holds path = true := by
  have hensure : ∀ {before : Disk}, before.Plain →
      before.ensureFolder path = (d', .error fault) → d'.holds path = true := by
    intro before hbefore hlast
    unfold ensureFolder at hlast
    split at hlast
    · cases hlast
    · rename_i r hmade
      obtain ⟨rfl, hrefused⟩ := Prod.mk.inj hlast
      split at hrefused
      · cases hrefused
      · cases hrefused
        exact holds_of_alreadyExists hbefore hmade hfault hslash
    · cases hlast
      cases hfault
  subst hresult
  cases h with
  | atOnce _ hlast => exact hensure hd hlast
  | behind _ hmade _ _ hlast => exact hensure ((hmade.extends hd).plain hd) hlast
  | stops _ _ hnot =>
    rw [hnot] at hfault
    cases hfault

/-- **A folder that only seems to have been made is not made again.** -/
theorem Makes.again {result : Except DiskFault Unit} (hd : d.Plain) (h : Makes d path d' result)
    (hresult : result = .ok ()) (hnot : d'.isFolder path = false) {result' : Except DiskFault Unit}
    (hagain : Makes d' path d'' result') :
    ∃ fault, result' = .error fault ∧ fault.isAlreadyExists = false := by
  induction h generalizing d'' result' with
  | atOnce _ hlast =>
    rw [isFolder_of_ensureFolder hd (hresult ▸ hlast)] at hnot
    cases hnot
  | behind _ hmade _ _ hlast _ =>
    rw [isFolder_of_ensureFolder ((hmade.extends hd).plain hd) (hresult ▸ hlast)] at hnot
    cases hnot
  | stops => cases hresult
  | @toDot d' path front _ hmade hgoes hhere ih =>
    cases hagain with
    | atOnce _ hlast =>
      obtain ⟨fault, hfails, hfault⟩ := ensureFolder_of_here ((hmade.extends hd).plain hd) hhere hnot
      rw [hfails] at hlast
      exact ⟨fault, (Prod.mk.inj hlast).2.symm, hfault⟩
    | behind _ _ _ hnamed _ => exact (hnamed hhere).elim
    | stops _ _ hfault => exact ⟨_, rfl, hfault⟩
    | toDot hlacks hmade' hgoes' _ =>
      -- the front is still not there, so it has only seemed to be made as well
      exfalso
      obtain ⟨-, -, hholds⟩ := hlacks
      cases front with
      | ok =>
        have hfront : d'.isFolder (Path.headName path).1 = false := by
          by_contra hfolder
          rw [Bool.not_eq_false] at hfolder
          rw [holds_of_isFolder hfolder] at hholds
          cases hholds
        obtain ⟨fault, rfl, hfault⟩ := ih rfl hfront hmade'
        rw [hgoes' fault rfl] at hfault
        cases hfault
      | error fault =>
        rw [hmade.holds hd rfl (hgoes fault rfl) Path.names_eq_nil_of_splitOn_headName] at hholds
        cases hholds

/-- **Folders that only seem to have been made are not made again.** -/
theorem ensureFolders_again (hd : d.Plain) (h : d.ensureFolders path = (d', .ok ()))
    (hnot : d'.isFolder path = false) : ∃ failure, (d'.ensureFolders path).2 = .error failure := by
  obtain ⟨fault, hfails, -⟩ := (makes_of_ensureFolders h).again hd rfl hnot (makes d' path)
  unfold ensureFolders
  split
  · exact ⟨_, rfl⟩
  · rename_i hmade
    rw [hmade] at hfails
    cases hfails

end Disk

end LessonPages
