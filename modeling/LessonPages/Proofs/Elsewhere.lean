import Mathlib.Data.List.Find
import LessonPages.Proofs.Absolute
import LessonPages.Proofs.Exact
import LessonPages.Proofs.Folders

/-!
# Discoveries and files elsewhere

A discovery reads what stands below its folder, and the ignore files of that folder and of those above
it. Folders that are added, and files that are written at other places, make no difference to it.

* `Disk.Extends.read_iff` — a path that does not go up leads to a file before exactly if it does
  afterwards.
* `Disk.Extends.load` — the same ignore rules count; `Disk.Extends.discover` — the same lessons are found.
-/

namespace LessonPages

open Discovery

/-! ## Walks that do not go up -/

namespace Walks

variable {root root' : Folder} {dir names : List Text} {place : Place}

/-- A walk that does not go up ends below its start. -/
theorem isPrefix_base (h : Walks root dir names place) (hup : Path.up ∉ names) : dir <+: place.base := by
  induction h with
  | stay | last => exact List.prefix_refl _
  | skip _ _ ih => exact ih fun hmem => hup (List.mem_cons_of_mem _ hmem)
  | up => exact (hup List.mem_cons_self).elim
  | into _ _ _ _ _ ih =>
    exact (List.prefix_append _ _).trans (ih fun hmem => hup (List.mem_cons_of_mem _ hmem))

/-- A walk that does not go up needs no folders but those that lead to its end. -/
theorem mono_of_not_up (h : Walks root dir names place) (hup : Path.up ∉ names)
    (hgrow : ∀ q, q <+: place.base → root.node? q = some .folder → root'.node? q = some .folder) :
    Walks root' dir names place := by
  induction h with
  | stay => exact .stay
  | last hname hrest => exact .last hname hrest
  | skip hname _ ih => exact .skip hname (ih (fun hmem => hup (List.mem_cons_of_mem _ hmem)) hgrow)
  | up => exact (hup List.mem_cons_self).elim
  | into hname hrest hshort hfolder h ih =>
    have hup := fun hmem => hup (List.mem_cons_of_mem _ hmem)
    exact .into hname hrest hshort (hgrow _ (h.isPrefix_base hup) hfolder) (ih hup hgrow)

end Walks

/-! ## Ignore files -/

namespace Path

/-- The path above one that starts at the root starts there, too. -/
theorem isAbsolute_parent {p : Text} (h : isAbsolute p = true) : isAbsolute (parent p) = true := by
  have hslash : '/' ∈ p := List.mem_of_head? (by simpa [isAbsolute] using h)
  have hne : parent p ≠ [] := by
    obtain ⟨front, last, rfl, hlast⟩ := exists_last hslash
    apply dropSlashes_ne_nil
    rw [cutLastSlash_append_cons front hlast]
    simp
  obtain ⟨rest, hrest⟩ := parent_isPrefix p
  obtain ⟨c, front, hfront⟩ := List.exists_cons_of_ne_nil hne
  rw [hfront] at hrest ⊢
  rwa [← hrest] at h

theorem target_eq_names {d : Disk} {p : Text} (h : isAbsolute p = true)
    (hnames : ∀ name ∈ names p, IsStep name) : d.target p = names p := by
  rw [Disk.target, Disk.startNames_of_isAbsolute h, ← foldl_follow_solidParts]
  show ((names p).foldl (follow true) []).reverse = _
  rw [foldl_follow_of_steps hnames, List.append_nil, List.reverse_reverse]

end Path

theorem Ignore.isAbsolute_of_mem_selfAndParents {p q : Text} (hp : Path.isAbsolute p = true)
    (h : q ∈ selfAndParents p) : Path.isAbsolute q = true := by
  rw [selfAndParents] at h
  split at h
  · rename_i hshort
    rcases List.mem_cons.mp h with rfl | h
    · exact hp
    · exact isAbsolute_of_mem_selfAndParents (Path.isAbsolute_parent hp) h
  · rwa [List.mem_singleton.mp h]
termination_by p.length

namespace Disk

variable {d d' : Disk} {path top root pattern : Text} {spots : List (List Text)}
  {respectIgnore : Bool} {ignored : Option IgnoreRules} {lessons : List Text}

/-- **A file at another place is read before exactly if it is read afterwards, if its path does not go
up.** -/
theorem Extends.read_iff (hext : d.Extends d' spots) (hd : d.Plain) (hspot : d.target path ∉ spots)
    (hup : Path.up ∉ path.splitOn '/') {content : Utf8.Bytes} :
    d'.read path = .ok content ↔ d.read path = .ok content := by
  have hd' := hext.plain hd
  rw [read_eq_ok_iff hd', read_eq_ok_iff hd, hext.target_eq, hext.file_iff hspot]
  refine and_congr_left fun hnode => ⟨?_, hext.reaches⟩
  rintro ⟨hnul, dir, name, hleads, hshort⟩
  -- the folders on the way lead to the file, which was there before
  rw [← hext.target_eq, ← hleads.names_eq hd', Place.names] at hnode
  have hgrow : ∀ q, q <+: dir → d.root.node? q = some .folder := by
    rintro q ⟨rest, rfl⟩
    rw [List.append_assoc] at hnode
    have hmore : rest ++ [name] ≠ [] := by simp
    exact Folder.node?_dir_of_append hmore (by rw [hnode]; simp)
  have hstart := startNames_congr hext.cwd_eq path
  obtain ⟨hne, hlong, -, hwalks⟩ := hleads
  rw [hstart] at hwalks
  exact ⟨hnul, dir, name, ⟨hne, hlong, hgrow _ (hwalks.isPrefix_base hup),
    hwalks.mono_of_not_up hup fun q hq _ => hgrow q hq⟩, hshort⟩

/-- The path of an ignore file that can count for a folder. -/
theorem target_ignoreFile (hcwd : ∀ name ∈ d.cwd, IsName name) {dir : Text}
    (hdir : dir ∈ Ignore.selfAndParents (Path.absolute d.cwdPath top)) :
    Path.up ∉ (Path.join dir ignoreFileName).splitOn '/' ∧
      ∃ above, above <+: d.target top ∧
        d.target (Path.join dir ignoreFileName) = above ++ [ignoreFileName] := by
  have hname : ∀ part ∈ [ignoreFileName], IsName part := by decide
  have hbelow := Ignore.names_prefix_of_mem_selfAndParents hdir
  rw [names_absolute hcwd] at hbelow
  have hsteps : ∀ name ∈ Path.names dir, IsStep name := by
    intro name hname
    exact (isStep_of_mem_target hcwd top name (hbelow.subset hname)).1
  have hdir := Path.target_eq_names (d := d)
    (Ignore.isAbsolute_of_mem_selfAndParents (isAbsolute_absolute hcwd top) hdir) hsteps
  refine ⟨?_, Path.names dir, hbelow, ?_⟩
  · intro hup
    have hmem : Path.up ∈ solidParts ((Path.joinAll dir [ignoreFileName]).splitOn '/') :=
      List.mem_filter.mpr ⟨hup, by decide⟩
    rw [solidParts_joinAll (fun part hpart => (hname part hpart).no_slash)] at hmem
    rcases List.mem_append.mp hmem with hmem | hmem
    · exact (hsteps _ hmem).ne_up rfl
    · revert hmem
      decide
  · rw [← hdir]
    exact target_joinAll_of_names hname dir

/-- **Where no ignore file is written, the same ignore rules count.** -/
theorem Extends.load (hext : d.Extends d' spots) (hd : d.Plain)
    (hignore : ∀ q ∈ spots, ∀ above, above <+: d.target top → q ≠ above ++ [ignoreFileName])
    (hload : IgnoreRules.load d top = .ok ignored) : IgnoreRules.load d' top = .ok ignored := by
  have hread : ∀ path ∈ (Ignore.selfAndParents (Path.absolute d.cwdPath top)).map
      (Path.join · ignoreFileName), ∀ content, d'.read path = .ok content ↔ d.read path = .ok content := by
    intro path hpath content
    obtain ⟨dir, hdir, rfl⟩ := List.mem_map.mp hpath
    obtain ⟨hup, above, habove, htarget⟩ := target_ignoreFile hd.cwd hdir
    refine hext.read_iff hd ?_ hup
    intro hspot
    exact hignore _ hspot above habove htarget
  have hcwd := cwdPath_congr hext.cwd_eq
  refine load_of_read ?_ ?_ hload
  · rw [Ignore.find?, Ignore.find?, hcwd]
    apply List.find?_congr
    intro path hpath
    rw [Bool.eq_iff_iff, isFile_iff_read, isFile_iff_read]
    exact exists_congr (hread path hpath)
  · intro path content hfound hcontent
    exact (hread path (List.mem_of_find?_eq_some hfound) content).mpr hcontent

/-! ## Lessons -/

/-- What is listed of the folder of a path stands in it. -/
theorem node?_of_list (hd : d.Plain) {inside : Folder} (hlist : d.list path = .ok inside) :
    inside.Linkless ∧ ∀ names, inside.node? names = d.root.node? (d.target path ++ names) := by
  obtain ⟨-, place, hplace, hget⟩ := list_eq_ok hlist
  rw [((locate_eq_ok_iff hd.linkless .look).mp hplace).names_eq hd] at hget
  exact ⟨hd.linkless.get? hget, fun names => (Folder.node?_append hget names).symm⟩

/-- **A discovery finds the same lessons on a disk to which folders have been added and files written, if
nothing has changed below its folder, and no ignore file in it or above it has been written.** -/
theorem Extends.discover (hext : d.Extends d' spots) (hd : d.Plain)
    (hbelow : ∀ names, d'.root.node? (d.target root ++ names) = d.root.node? (d.target root ++ names))
    (hignore : ∀ q ∈ spots, ∀ above, above <+: d.target root → q ≠ above ++ [ignoreFileName])
    (hfound : LessonPages.discover d root pattern respectIgnore = .ok lessons) :
    LessonPages.discover d' root pattern respectIgnore = .ok lessons := by
  have hd' := hext.plain hd
  obtain ⟨hroot, chosen, ignored, inside, hchosen, hignored, hlist, -⟩ := discover_eq_ok_iff.mp hfound
  have htop := target_absolute hd.cwd root
  obtain ⟨inside', hlist'⟩ := isFolder_iff_list.mp
    (hext.isFolder hd (isFolder_iff_list.mpr ⟨inside, hlist⟩))
  obtain ⟨hlinkless, hstands⟩ := node?_of_list hd hlist
  refine (discover_congr hd.wellFormed.toNamed hd'.wellFormed.toNamed hext.cwd_eq hroot
    (hext.isFolder hd hroot) (fun _ => hlist) (fun _ => hlist') hchosen hignored ?_ ?_ ?_).trans hfound
  · exact hext.load hd (by rwa [htop])
  · -- the same stands in the folder on both disks
    intro names
    rw [hstands, (node?_of_list hd' hlist').2, hext.target_eq, htop, hbelow]
  · intro names target hlink
    exact (hlinkless.node?_ne_link names target hlink).elim

end Disk

end LessonPages
