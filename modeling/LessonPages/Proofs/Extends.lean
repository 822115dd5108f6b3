import LessonPages.Proofs.Growth

/-!
# What a disk keeps

Whatever a run does to a disk adds folders where nothing stood and gives bytes to files at known
places. Everything else stays as it was, and nothing that led somewhere stops leading there.

* `Disk.Extends` — a disk became another one by adding folders and writing files at given places.
* `Disk.Makes.extends`, `Disk.write_extends` — the two things that are done to a disk;
  `Disk.node?_of_write` — what a written file changes.
* `Disk.HasText` — a file that holds a text; `Disk.HasText.extends` — it goes on holding it.
* `convertFile_ok`, `convertFile_error` — a lesson; `generateIndex_ok`, `generateIndex_error` — the
  index. `convertFile_eq_ok_iff`, `generateIndex_eq_ok_iff` — the accesses that they take.
-/

namespace LessonPages

namespace Disk

open Utf8 (Bytes)

variable {d d' d'' : Disk} {path : Text} {spots : List (List Text)}

/-- A disk has become another one: folders have been added where nothing stood, and files have been
written at some of the given places, none of which was a folder. -/
structure Extends (d d' : Disk) (spots : List (List Text)) : Prop where
  cwd_eq : d'.cwd = d.cwd
  plain : d.Plain → d'.Plain
  node? : ∀ q, d'.root.node? q = d.root.node? q ∨
    (d.root.node? q = none ∧ d'.root.node? q = some .folder) ∨
    (q ∈ spots ∧ d.root.node? q ≠ some .folder ∧ ∃ content, d'.root.node? q = some (.file content))

namespace Extends

theorem refl (d : Disk) (spots : List (List Text)) : d.Extends d spots :=
  ⟨rfl, id, fun _ => .inl rfl⟩

theorem mono (h : d.Extends d' spots) {more : List (List Text)} (hsub : spots ⊆ more) :
    d.Extends d' more := by
  refine ⟨h.cwd_eq, h.plain, ?_⟩
  intro q
  rcases h.node? q with hsame | hnew | ⟨hspot, hrest⟩
  · exact .inl hsame
  · exact .inr (.inl hnew)
  · exact .inr (.inr ⟨hsub hspot, hrest⟩)

theorem trans (h : d.Extends d' spots) (h' : d'.Extends d'' spots) : d.Extends d'' spots := by
  refine ⟨h'.cwd_eq.trans h.cwd_eq, h'.plain ∘ h.plain, ?_⟩
  intro q
  rcases h'.node? q with hsame' | ⟨hnone, hnew⟩ | ⟨hspot, hnot, hfile⟩
  · rw [hsame']
    exact h.node? q
  · rcases h.node? q with hsame | ⟨_, hfolder⟩ | ⟨_, _, content, hwritten⟩
    · exact .inr (.inl ⟨hsame ▸ hnone, hnew⟩)
    · rw [hfolder] at hnone
      cases hnone
    · rw [hwritten] at hnone
      cases hnone
  · rcases h.node? q with hsame | ⟨_, hfolder⟩ | ⟨_, hbefore, _⟩
    · exact .inr (.inr ⟨hspot, hsame ▸ hnot, hfile⟩)
    · exact (hnot hfolder).elim
    · exact .inr (.inr ⟨hspot, hbefore, hfile⟩)

theorem folder (h : d.Extends d' spots) {q : List Text} (hq : d.root.node? q = some .folder) :
    d'.root.node? q = some .folder := by
  rcases h.node? q with hsame | ⟨hnone, _⟩ | ⟨_, hnot, _⟩
  · rw [hsame, hq]
  · rw [hq] at hnone
    cases hnone
  · exact (hnot hq).elim

/-- A file at another place is there before exactly if it is there afterwards. -/
theorem file_iff (h : d.Extends d' spots) {q : List Text} (hq : q ∉ spots) {content : Bytes} :
    d'.root.node? q = some (.file content) ↔ d.root.node? q = some (.file content) := by
  rcases h.node? q with hsame | ⟨hnone, hfolder⟩ | ⟨hspot, _⟩
  · rw [hsame]
  · rw [hnone, hfolder]
    simp
  · exact (hq hspot).elim

/-- A file stays one, though it may be written over. -/
theorem exists_file (h : d.Extends d' spots) {q : List Text} {content : Bytes}
    (hq : d.root.node? q = some (.file content)) : ∃ content', d'.root.node? q = some (.file content') := by
  rcases h.node? q with hsame | ⟨hnone, _⟩ | ⟨_, _, hwritten⟩
  · exact ⟨content, hsame.trans hq⟩
  · rw [hq] at hnone
    cases hnone
  · exact hwritten

theorem target_eq (h : d.Extends d' spots) (path : Text) : d'.target path = d.target path :=
  target_congr h.cwd_eq path

theorem reaches (h : d.Extends d' spots) (hpath : d.Reaches path) : d'.Reaches path :=
  hpath.mono h.cwd_eq (fun _ => h.folder)

end Extends

/-! ## Single accesses -/

/-- Setting an entry that holds nothing, where no folder stands, keeps a disk as it can be. -/
theorem Plain.set (hd : d.Plain) {dir : List Text} {name : Text} {e : Entry} (hleaf : Folder.Leaf e)
    (hdir : d.root.node? dir = some .folder) (hname : IsName name) :
    ({ d with root := d.root.set e (dir ++ [name]) } : Disk).Plain :=
  ⟨proper_set hd.proper hleaf hdir hname, hd.linkless.set hleaf _, hd.cwd⟩

/-- Growing is extending, if the disk stays plain. -/
theorem Grows.extends (h : d.Grows d' (· ∈ spots)) (hplain : d.Plain → d'.Plain) :
    d.Extends d' spots := by
  refine ⟨h.cwd_eq, hplain, ?_⟩
  intro q
  rcases h.node? q with hsame | hnew | ⟨hspot, hnot, -, hfile⟩
  · exact .inl hsame
  · exact .inr (.inl hnew)
  · exact .inr (.inr ⟨hspot, hnot, hfile⟩)

/-- Writing a file changes what stands at its place. -/
theorem node?_of_write {content : Bytes} (hd : d.Plain) (h : d.write path content = .ok d')
    (q : List Text) :
    d'.root.node? q = if q = d.target path then some (.file content) else d.root.node? q := by
  obtain ⟨hreaches, hnot, rfl⟩ := (write_eq_ok_iff hd).mp h
  obtain ⟨dir, name, htarget, -, hdir⟩ := hreaches.exists_dir hd
  rw [htarget] at hnot ⊢
  exact Folder.node?_set (.file content) hdir hnot q

theorem write_extends {content : Bytes} (hd : d.Plain) (h : d.write path content = .ok d') :
    d.Extends d' [d.target path] ∧ d'.root.node? (d.target path) = some (.file content) := by
  refine ⟨?_, by rw [node?_of_write hd h, if_pos rfl]⟩
  obtain ⟨hreaches, hnot, rfl⟩ := (write_eq_ok_iff hd).mp h
  obtain ⟨dir, name, htarget, hname, hdir⟩ := hreaches.exists_dir hd
  rw [htarget] at hnot ⊢
  have hgrows := grows_of_file (fun _ => hname) hdir hnot
    (fun target => hd.linkless.node?_ne_link _ target) content
  refine (hgrows.mono ?_).extends fun _ => hd.set (.file content) hdir hname
  exact fun q hq => List.mem_singleton.mpr hq

theorem makeFolder_extends (hd : d.Plain) (h : d.makeFolder path = .ok d') : d.Extends d' [] := by
  obtain ⟨dir, name, -, hname, hdir, hnone, rfl⟩ := makeFolder_eq_ok hd h
  exact (grows_of_folder (fun _ => hname) hdir hnone _).extends fun _ => hd.set .empty hdir hname

/-- Making a folder with all that lead to it only adds folders, also where it fails. -/
theorem Makes.extends {result : Except DiskFault Unit} (hd : d.Plain) (h : Makes d path d' result) :
    d.Extends d' [] := by
  refine h.induction (R := fun d d' => d.Plain → d.Extends d' []) (fun d _ => .refl d []) ?_
    (fun hmade hd => makeFolder_extends hd hmade) hd
  intro d d' d'' h h' hd
  exact (h hd).trans (h' ((h hd).plain hd))

theorem ensureFolders_extends (hd : d.Plain) (path : Text) :
    d.Extends (d.ensureFolders path).1 [] := by
  rw [ensureFolders_fst]
  exact (makes d path).extends hd

/-! ## Writing a page -/

/-- A text stands in a file that a path leads to. -/
structure HasText (d : Disk) (path text : Text) : Prop where
  reaches : d.Reaches path
  node? : d.root.node? (d.target path) = some (.file (Utf8.encode text))

theorem HasText.read (hd : d.Plain) {text : Text} (h : d.HasText path text) :
    d.read path = .ok (Utf8.encode text) :=
  (read_eq_ok_iff hd).mpr ⟨h.reaches, h.node?⟩

/-- A text stays where it is while files are written at other places. -/
theorem HasText.extends {text : Text} (h : d.HasText path text) (hext : d.Extends d' spots)
    (hspot : d.target path ∉ spots) : d'.HasText path text := by
  refine ⟨hext.reaches h.reaches, ?_⟩
  rw [hext.target_eq]
  exact (hext.file_iff hspot).mpr h.node?

theorem writeText_ok (hd : d.Plain) {text : Text} (h : d.writeText path text = .ok d') :
    d.Extends d' [d.target path] ∧ d'.HasText path text := by
  unfold writeText at h
  split at h
  · cases h
  · rename_i hwrite
    cases h
    obtain ⟨hext, hnode⟩ := write_extends hd hwrite
    obtain ⟨hreaches, -⟩ := (write_eq_ok_iff hd).mp hwrite
    refine ⟨hext, hext.reaches hreaches, ?_⟩
    rwa [hext.target_eq]

theorem writeInFolder_ok (hd : d.Plain) {folder text : Text}
    (h : d.writeInFolder folder path text = (d', .ok ())) :
    d.Extends d' [d.target path] ∧ d'.HasText path text := by
  have hfolders := ensureFolders_extends hd folder
  unfold writeInFolder at h
  split at h
  · cases h
  · rename_i made hmade
    rw [hmade] at hfolders
    split at h
    · cases h
    · rename_i hwrite
      cases h
      obtain ⟨hext, htext⟩ := writeText_ok (hfolders.plain hd) hwrite
      rw [hfolders.target_eq] at hext
      exact ⟨(hfolders.mono (List.nil_subset _)).trans hext, htext⟩

theorem writeInFolder_error (hd : d.Plain) {folder text : Text} {failure : Failure}
    (h : d.writeInFolder folder path text = (d', .error failure)) : d.Extends d' [] := by
  have hfolders := ensureFolders_extends hd folder
  unfold writeInFolder at h
  split at h
  · rename_i hmade
    rw [hmade] at hfolders
    cases h
    exact hfolders
  · rename_i made hmade
    rw [hmade] at hfolders
    split at h
    · cases h
      exact hfolders
    · cases h

end Disk

variable {d d' : Disk} {s : Settings} {lesson page path : Text} {pages : List Text}

/-- A lesson is converted if it is read and its page is written. -/
theorem convertFile_eq_ok_iff : convertFile d s lesson = (d', .ok page) ↔
    page = pageName s.extension lesson ∧ ∃ text, d.readText (pathBelow s.source lesson) = .ok text ∧
      d.writeInFolder (Path.parent (s.pagePath lesson)) (s.pagePath lesson)
        (Page.ofLesson s.language text) = (d', .ok ()) := by
  unfold convertFile
  constructor
  · intro h
    split at h
    · cases h
    · rename_i text hread
      dsimp only at h
      split at h
      · cases h
      · rename_i hwrite
        cases h
        exact ⟨rfl, text, hread, hwrite⟩
  · rintro ⟨rfl, text, hread, hwrite⟩
    rw [Settings.pagePath] at hwrite
    simp only [hread, hwrite]

/-- **Converting a lesson writes its page and nothing else.** -/
theorem convertFile_ok (hd : d.Plain) (h : convertFile d s lesson = (d', .ok page)) :
    page = pageName s.extension lesson ∧ d.Extends d' [d.target (s.pagePath lesson)] ∧
      ∃ text, d.readText (pathBelow s.source lesson) = .ok text ∧
        d'.HasText (s.pagePath lesson) (Page.ofLesson s.language text) := by
  obtain ⟨hpage, text, hread, hwrite⟩ := convertFile_eq_ok_iff.mp h
  obtain ⟨hext, htext⟩ := Disk.writeInFolder_ok hd hwrite
  exact ⟨hpage, hext, text, hread, htext⟩

/-- A lesson that is not converted leaves nothing but folders. -/
theorem convertFile_error (hd : d.Plain) {failure : Failure}
    (h : convertFile d s lesson = (d', .error failure)) : d.Extends d' [] := by
  unfold convertFile at h
  split at h
  · cases h
    exact .refl d []
  · dsimp only at h
    split at h
    · rename_i hwrite
      cases h
      exact Disk.writeInFolder_error hd hwrite
    · cases h

/-- An index is given if it is written. -/
theorem generateIndex_eq_ok_iff : generateIndex d s.destination pages s.indexName = (d', .ok path) ↔
    path = s.indexPath ∧
      d.writeInFolder s.destination s.indexPath (Index.page pages) = (d', .ok ()) := by
  unfold generateIndex
  constructor
  · intro h
    dsimp only at h
    split at h
    · cases h
    · rename_i hwrite
      cases h
      exact ⟨rfl, hwrite⟩
  · rintro ⟨rfl, hwrite⟩
    rw [Settings.indexPath] at hwrite
    simp only [hwrite, Settings.indexPath]

theorem generateIndex_ok (hd : d.Plain)
    (h : generateIndex d s.destination pages s.indexName = (d', .ok path)) :
    path = s.indexPath ∧ d.Extends d' [d.target s.indexPath] ∧
      d'.HasText s.indexPath (Index.page pages) := by
  obtain ⟨hpath, hwrite⟩ := generateIndex_eq_ok_iff.mp h
  exact ⟨hpath, Disk.writeInFolder_ok hd hwrite⟩

theorem generateIndex_error (hd : d.Plain) {failure : Failure}
    (h : generateIndex d s.destination pages s.indexName = (d', .error failure)) :
    d.Extends d' [] := by
  unfold generateIndex at h
  dsimp only at h
  split at h
  · rename_i hwrite
    cases h
    exact Disk.writeInFolder_error hd hwrite
  · cases h

end LessonPages
