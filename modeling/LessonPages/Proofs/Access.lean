import LessonPages.Proofs.Lines
import LessonPages.Proofs.Walk

/-!
# What reading and writing do

Each access of a disk is told by the node at the place that its path leads to. In a tree without links
this is the target of the path, and it is to be asked only whether the path leads to a file's place.

* `Disk.Routed.isName`, `Disk.write_eq_ok_iff_routed`, `Disk.makeFolder_eq_ok_routed` — writing and
  making a folder, in any tree.
* `Disk.Reaches` — a path leads to a place that a file can have.
* `Disk.read_eq_ok_iff`, `Disk.write_eq_ok_iff` — reading and writing without links.
* `Disk.list_eq_ok`, `Disk.isFolder_iff_list` — folders, in any tree; `Disk.isFolder_eq_true` — without
  links.
* `Disk.makeFolder_eq_ok` — making a folder without links.
* `Disk.leadsTo_of_alreadyExists`, `Disk.holds_of_alreadyExists` — a folder that is refused because
  something is there.
-/

namespace LessonPages

namespace Disk

open Utf8 (Bytes)

variable {d d' : Disk} {path : Text} {content : Bytes}

/-- A path leads to a place that a file can have. -/
structure Reaches (d : Disk) (path : Text) : Prop where
  no_nul : hasNul path = false
  leads : ∃ dir name, d.LeadsTo path (.slot dir name false) ∧ isLongName name = false

theorem Reaches.mono (hcwd : d'.cwd = d.cwd)
    (hgrow : ∀ q, d.root.node? q = some .folder → d'.root.node? q = some .folder)
    (h : d.Reaches path) : d'.Reaches path := by
  obtain ⟨hnul, dir, name, hleads, hshort⟩ := h
  exact ⟨hnul, dir, name, hleads.mono hcwd hgrow, hshort⟩

/-- The name at the end of a path can be that of an entry, unless it is too long. -/
theorem Routed.isName {dir : List Text} {name : Text} {slash : Bool} {purpose : Purpose}
    (h : d.Routed purpose path (.slot dir name slash)) (hd : d.WellFormed)
    (hnul : hasNul path = false) (hshort : isLongName name = false) : IsName name := by
  have hpath : ∀ n ∈ path.splitOn '/', '/' ∉ n ∧ '\x00' ∉ n := by
    intro n hn
    obtain ⟨hslash, hsub⟩ := mem_splitOn hn
    refine ⟨hslash, ?_⟩
    intro hmem
    rw [hasNul, List.contains_iff_mem.mpr (hsub hmem)] at hnul
    cases hnul
  have htargets : ∀ q target, d.root.node? q = some (.link target) →
      ∀ n ∈ target.splitOn '/', '/' ∉ n ∧ '\x00' ∉ n := by
    intro q target hlink n hn
    obtain ⟨hslash, hsub⟩ := mem_splitOn hn
    exact ⟨hslash, fun hmem => hd.targets q target hlink (hsub hmem)⟩
  obtain ⟨hstep, hslash, hnul⟩ := h.route.slot_name hpath htargets rfl
  exact ⟨hstep, hslash, hnul, hshort⟩

theorem Reaches.exists_dir (h : d.Reaches path) (hd : d.Plain) :
    ∃ dir name, d.target path = dir ++ [name] ∧ IsName name ∧ d.root.node? dir = some .folder := by
  obtain ⟨hnul, dir, name, hleads, hshort⟩ := h
  have hrouted := hleads.routed hd.linkless .write
  exact ⟨dir, name, (hleads.names_eq hd).symm, hrouted.isName hd.wellFormed hnul hshort,
    hleads.base_folder⟩

theorem LeadsTo.entryAt_eq_file_iff {place : Place} (h : d.LeadsTo path place) :
    d.entryAt place = .ok (.file content) ↔
      ∃ dir name, place = .slot dir name false ∧ isLongName name = false ∧
        d.root.node? (dir ++ [name]) = some (.file content) := by
  constructor
  · intro hfile
    cases place with
    | folder dir =>
      obtain ⟨inside, hget⟩ := Folder.node?_eq_folder_iff.mp h.base_folder
      rw [Place.base] at hget
      rw [entryAt, hget] at hfile
      cases hfile
    | slot dir name slash =>
      rw [entryAt] at hfile
      split at hfile
      · cases hfile
      · rename_i hshort
        split at hfile
        · cases hfile
        · rename_i found hget
          split at hfile
          · cases hfile
          · rename_i hslash
            cases hfile
            rw [Bool.not_eq_true] at hshort hslash
            subst hslash
            exact ⟨dir, name, rfl, hshort, Folder.node?_eq_file_iff.mpr hget⟩
        · rename_i hnot hget
          cases hfile
          exact absurd rfl (hnot content)
  · rintro ⟨dir, name, rfl, hshort, hnode⟩
    rw [entryAt, if_neg (by simp [hshort]), Folder.node?_eq_file_iff.mp hnode]
    rfl

/-- A folder that stands at a place is what the names of the place lead to. -/
theorem get?_of_entryAt {place : Place} {inside : Folder}
    (h : d.entryAt place = .ok (.folder inside)) :
    d.root.get? place.names = some (.folder inside) := by
  cases place with
  | folder names =>
    rw [entryAt] at h
    split at h
    · rename_i hget
      cases h
      exact hget
    · cases h
  | slot dir name slash =>
    rw [entryAt] at h
    split at h
    · cases h
    · split at h
      · cases h
      · split at h <;> cases h
      · rename_i hget
        cases h
        exact hget

/-- What names lead to stands at each place with these names, if it is a folder. -/
theorem entryAt_of_get? (hd : d.root.Proper) {place : Place} {inside : Folder}
    (hget : d.root.get? place.names = some (.folder inside)) :
    d.entryAt place = .ok (.folder inside) := by
  cases place with
  | folder names =>
    rw [Place.names] at hget
    rw [entryAt, hget]
  | slot dir name slash =>
    rw [Place.names] at hget
    have hnode := Folder.node?_eq_folder_iff.mpr ⟨inside, hget⟩
    have hname := hd.isName_of_node? (by rw [hnode]; simp) name (by simp)
    rw [entryAt, if_neg (by simp [hname.short]), hget]

theorem read_eq_ok_iff_look : d.read path = .ok content ↔
    hasNul path = false ∧ d.look .look path = .ok (.file content) := by
  unfold read
  by_cases hnul : hasNul path = true
  · simp [hnul]
  · rw [if_neg hnul]
    cases d.look .look path with
    | error _ => simp
    | ok e => cases e <;> simp [hnul]

/-- **Reading gives the bytes of the file at the target of the path.** -/
theorem read_eq_ok_iff (hd : d.Plain) :
    d.read path = .ok content ↔
      d.Reaches path ∧ d.root.node? (d.target path) = some (.file content) := by
  rw [read_eq_ok_iff_look]
  unfold look
  constructor
  · rintro ⟨hnul, hlook⟩
    split at hlook
    · cases hlook
    · rename_i place hlocate
      have hleads := (locate_eq_ok_iff hd.linkless .look).mp hlocate
      obtain ⟨dir, name, rfl, hshort, hnode⟩ := hleads.entryAt_eq_file_iff.mp hlook
      rw [← hleads.names_eq hd]
      exact ⟨⟨hnul, dir, name, hleads, hshort⟩, hnode⟩
  · rintro ⟨⟨hnul, dir, name, hleads, hshort⟩, hnode⟩
    rw [← hleads.names_eq hd] at hnode
    rw [(locate_eq_ok_iff hd.linkless .look).mpr hleads]
    exact ⟨hnul, hleads.entryAt_eq_file_iff.mpr ⟨dir, name, rfl, hshort, hnode⟩⟩

theorem list_eq_ok_iff_look {inside : Folder} : d.list path = .ok inside ↔
    hasNul path = false ∧ d.look .look path = .ok (.folder inside) := by
  unfold list
  by_cases hnul : hasNul path = true
  · simp [hnul]
  · rw [if_neg hnul]
    cases d.look .look path with
    | error _ => simp
    | ok e => cases e <;> simp [hnul]

/-- A listing gives what stands at the place that the path leads to. -/
theorem list_eq_ok {inside : Folder} (h : d.list path = .ok inside) :
    hasNul path = false ∧ ∃ place, d.locate .look path = .ok place ∧
      d.root.get? place.names = some (.folder inside) := by
  obtain ⟨hnul, hlook⟩ := list_eq_ok_iff_look.mp h
  refine ⟨hnul, ?_⟩
  unfold look at hlook
  split at hlook
  · cases hlook
  · rename_i place hlocate
    exact ⟨place, hlocate, get?_of_entryAt hlook⟩

/-- What a listing gives has names as they can be. -/
theorem proper_of_list (hd : d.root.Proper) {inside : Folder} (h : d.list path = .ok inside) :
    inside.Proper := by
  obtain ⟨-, place, -, hget⟩ := list_eq_ok h
  exact hd.get? hget

/-- A path leads to a folder exactly if it can be listed. -/
theorem isFolder_iff_list : d.isFolder path = true ↔ ∃ inside, d.list path = .ok inside := by
  simp only [list_eq_ok_iff_look]
  unfold isFolder find?
  by_cases hnul : hasNul path = true
  · simp [hnul]
  · rw [if_neg hnul]
    cases d.look .look path with
    | error _ => simp [Except.toOption]
    | ok e => cases e <;> simp [Except.toOption, hnul]

/-- A path leads to a file exactly if it can be read. -/
theorem isFile_iff_read : d.isFile path = true ↔ ∃ content, d.read path = .ok content := by
  simp only [read_eq_ok_iff_look]
  unfold isFile find?
  by_cases hnul : hasNul path = true
  · simp [hnul]
  · rw [if_neg hnul]
    cases d.look .look path with
    | error _ => simp [Except.toOption]
    | ok e => cases e <;> simp [Except.toOption, hnul]

theorem isFolder_eq_true (hd : d.Plain) (h : d.isFolder path = true) :
    hasNul path = false ∧ (∃ place, d.LeadsTo path place) ∧
      d.root.node? (d.target path) = some .folder := by
  obtain ⟨inside, hlist⟩ := isFolder_iff_list.mp h
  obtain ⟨hnul, place, hlocate, hget⟩ := list_eq_ok hlist
  have hleads := (locate_eq_ok_iff hd.linkless .look).mp hlocate
  rw [hleads.names_eq hd] at hget
  exact ⟨hnul, ⟨place, hleads⟩, Folder.node?_eq_folder_iff.mpr ⟨inside, hget⟩⟩

theorem locate_bind_eq_ok_iff {purpose : Purpose} {names : List Text}
    {spot : Place → Except Refusal (List Text)} :
    (d.locate purpose path).bind spot = .ok names ↔
      ∃ place, d.locate purpose path = .ok place ∧ spot place = .ok names := by
  cases d.locate purpose path with
  | error _ => simp [Except.bind]
  | ok place => simp [Except.bind]

theorem fileSpot_eq_ok_iff {place : Place} {names : List Text} :
    d.fileSpot place = .ok names ↔
      ∃ dir name, place = .slot dir name false ∧ isLongName name = false ∧
        d.root.node? (dir ++ [name]) ≠ some .folder ∧ names = dir ++ [name] := by
  constructor
  · intro h
    cases place with
    | folder dir => cases h
    | slot dir name slash =>
      rw [fileSpot] at h
      split at h
      · cases h
      · rename_i hslash
        split at h
        · cases h
        · rename_i hshort
          split at h
          · cases h
          · rename_i hnot
            cases h
            rw [Bool.not_eq_true] at hshort hslash
            subst hslash
            refine ⟨dir, name, rfl, hshort, ?_, rfl⟩
            intro hnode
            obtain ⟨inside, hget⟩ := Folder.node?_eq_folder_iff.mp hnode
            exact hnot inside hget
  · rintro ⟨dir, name, rfl, hshort, hnode, rfl⟩
    rw [fileSpot, if_neg (by simp), if_neg (by simp [hshort])]
    split
    · rename_i inside hget
      exact (hnode (Folder.node?_eq_folder_iff.mpr ⟨inside, hget⟩)).elim
    · rfl

theorem folderSpot_eq_ok_iff {place : Place} {names : List Text} :
    d.folderSpot place = .ok names ↔
      ∃ dir name slash, place = .slot dir name slash ∧ isLongName name = false ∧
        d.root.node? (dir ++ [name]) = none ∧ names = dir ++ [name] := by
  constructor
  · intro h
    cases place with
    | folder dir => cases h
    | slot dir name slash =>
      rw [folderSpot] at h
      split at h
      · cases h
      · rename_i hshort
        split at h
        · cases h
        · rename_i hget
          cases h
          exact ⟨dir, name, slash, rfl, by simpa using hshort, by rw [Folder.node?, hget]; rfl, rfl⟩
  · rintro ⟨dir, name, slash, rfl, hshort, hnode, rfl⟩
    rw [Folder.node?, Option.map_eq_none_iff] at hnode
    rw [folderSpot, if_neg (by simp [hshort]), hnode]

/-- Writing sets the place that the path leads to, which has to be a file's place and no folder. -/
theorem write_eq_ok_iff_routed :
    d.write path content = .ok d' ↔ hasNul path = false ∧ ∃ dir name,
      d.Routed .write path (.slot dir name false) ∧ isLongName name = false ∧
        d.root.node? (dir ++ [name]) ≠ some .folder ∧
        d' = { d with root := d.root.set (.file content) (dir ++ [name]) } := by
  unfold write
  constructor
  · intro h
    split at h
    · cases h
    · rename_i hnul
      split at h
      · cases h
      · rename_i names hspot
        cases h
        obtain ⟨place, hlocate, hspot⟩ := locate_bind_eq_ok_iff.mp hspot
        obtain ⟨dir, name, rfl, hshort, hnode, rfl⟩ := fileSpot_eq_ok_iff.mp hspot
        exact ⟨by simpa using hnul, dir, name, locate_eq_ok_iff_routed.mp hlocate, hshort, hnode, rfl⟩
  · rintro ⟨hnul, dir, name, hrouted, hshort, hnode, rfl⟩
    rw [if_neg (by simp [hnul]), locate_bind_eq_ok_iff.mpr ⟨_, locate_eq_ok_iff_routed.mpr hrouted,
      fileSpot_eq_ok_iff.mpr ⟨dir, name, rfl, hshort, hnode, rfl⟩⟩]

/-- Making a folder sets the place that the path leads to, at which nothing may stand. -/
theorem makeFolder_eq_ok_routed (h : d.makeFolder path = .ok d') :
    hasNul path = false ∧ ∃ dir name slash,
      d.Routed .makeFolder path (.slot dir name slash) ∧ isLongName name = false ∧
        d.root.node? (dir ++ [name]) = none ∧
        d' = { d with root := d.root.set (.folder .empty) (dir ++ [name]) } := by
  unfold makeFolder at h
  split at h
  · cases h
  · rename_i hnul
    split at h
    · cases h
    · rename_i names hspot
      cases h
      obtain ⟨place, hlocate, hspot⟩ := locate_bind_eq_ok_iff.mp hspot
      obtain ⟨dir, name, slash, rfl, hshort, hnode, rfl⟩ := folderSpot_eq_ok_iff.mp hspot
      exact ⟨by simpa using hnul, dir, name, slash, locate_eq_ok_iff_routed.mp hlocate, hshort, hnode,
        rfl⟩

/-- **Without links, writing sets the target of the path.** -/
theorem write_eq_ok_iff (hd : d.Plain) :
    d.write path content = .ok d' ↔
      d.Reaches path ∧ d.root.node? (d.target path) ≠ some .folder ∧
        d' = { d with root := d.root.set (.file content) (d.target path) } := by
  rw [write_eq_ok_iff_routed]
  constructor
  · rintro ⟨hnul, dir, name, hrouted, hshort, hnode, rfl⟩
    have hleads := hrouted.leadsTo hd.linkless
    rw [← hleads.names_eq hd]
    exact ⟨⟨hnul, dir, name, hleads, hshort⟩, hnode, rfl⟩
  · rintro ⟨⟨hnul, dir, name, hleads, hshort⟩, hnode, rfl⟩
    rw [← hleads.names_eq hd] at hnode ⊢
    exact ⟨hnul, dir, name, hleads.routed hd.linkless .write, hshort, hnode, rfl⟩

/-- **Without links, making a folder sets the target of the path.** -/
theorem makeFolder_eq_ok (hd : d.Plain) (h : d.makeFolder path = .ok d') :
    ∃ dir name, d.target path = dir ++ [name] ∧ IsName name ∧ d.root.node? dir = some .folder ∧
      d.root.node? (dir ++ [name]) = none ∧
      d' = { d with root := d.root.set (.folder .empty) (dir ++ [name]) } := by
  obtain ⟨hnul, dir, name, slash, hrouted, hshort, hnode, rfl⟩ := makeFolder_eq_ok_routed h
  have hleads := hrouted.leadsTo hd.linkless
  exact ⟨dir, name, (hleads.names_eq hd).symm, hrouted.isName hd.wellFormed hnul hshort,
    hleads.base_folder, hnode, rfl⟩

/-! ## What is refused because something is there -/

theorem locate_ne_alreadyExists (d : Disk) (purpose : Purpose) (path : Text) :
    d.locate purpose path ≠ .error .alreadyExists := by
  unfold locate
  split
  · simp
  · split
    · simp
    · split
      · simp
      · exact d.root.follow_ne_alreadyExists purpose linkLimit _ _

/-- A folder is refused because something is there only where the path leads to it. -/
theorem leadsTo_of_alreadyExists (hd : d.Plain) (h : d.makeFolder path = .error fault)
    (hfault : fault.isAlreadyExists = true) : hasNul path = false ∧
      ∃ place, d.LeadsTo path place ∧ d.folderSpot place = .error .alreadyExists := by
  unfold makeFolder at h
  split at h
  · cases h
    cases hfault
  · rename_i hnul
    split at h
    · rename_i cause hspot
      cases h
      obtain rfl : cause = .alreadyExists := by simpa [refuse, DiskFault.isAlreadyExists] using hfault
      refine ⟨by simpa using hnul, ?_⟩
      cases hlocate : d.locate .makeFolder path with
      | error cause =>
        rw [hlocate] at hspot
        cases hspot
        exact (locate_ne_alreadyExists d _ path hlocate).elim
      | ok place =>
        rw [hlocate] at hspot
        exact ⟨place, (locate_eq_ok_iff hd.linkless .makeFolder).mp hlocate, hspot⟩
    · cases h

/-- What is refused because something is there leads to it, where no slash stands at the end. -/
theorem holds_of_alreadyExists (hd : d.Plain) (h : d.makeFolder path = .error fault)
    (hfault : fault.isAlreadyExists = true)
    (hslash : (path.splitOn '/').getLast? = some [] → Path.names path = []) :
    d.holds path = true := by
  obtain ⟨hnul, place, hleads, hspot⟩ := leadsTo_of_alreadyExists hd h hfault
  have hentry : ∃ e, d.entryAt place = .ok e := by
    cases place with
    | folder names =>
      obtain ⟨inside, hget⟩ := Folder.node?_eq_folder_iff.mp hleads.base_folder
      exact ⟨_, by rw [entryAt, show d.root.get? names = _ from hget]⟩
    | slot dir name slash =>
      obtain rfl : slash = false := by
        cases slash with
        | false => rfl
        | true =>
          have hnames := hslash (hleads.walks.getLast?_of_slash rfl)
          have hlast := (hleads.walks.getLast?_solidParts rfl).1
          rw [show solidParts (path.splitOn '/') = _ from hnames] at hlast
          cases hlast
      rw [folderSpot] at hspot
      split at hspot
      · cases hspot
      · rename_i hshort
        split at hspot
        · rename_i e hget
          rw [entryAt, if_neg hshort, hget]
          cases e <;> exact ⟨_, rfl⟩
        · cases hspot
  obtain ⟨e, hentry⟩ := hentry
  unfold holds find?
  rw [if_neg (by simp [hnul]), look, (locate_eq_ok_iff hd.linkless .look).mpr hleads]
  simp only [hentry]
  rfl

end Disk

end LessonPages
