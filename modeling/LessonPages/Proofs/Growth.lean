import LessonPages.Convert
import LessonPages.Proofs.Access

/-!
# What a disk gains

In any tree, with links or without, making folders and writing pages never takes anything away: folders
are added where nothing stood, and files are written where no folder and no link stands. So a path
that leads somewhere goes on leading there.

* `Disk.Grows` — a disk became another one in this way; `Disk.Grows.locate` — paths keep their places.
* `Disk.Makes`, `Disk.makes` — how a folder is made with all that lead to it; `Disk.Makes.induction` —
  what holds of making one folder holds of making all of them.
* `Disk.WritesAt` — where writing to a path puts the file.
* `convertFile_grows`, `generateIndex_grows` — a lesson and the index, whether they succeed or not.
-/

namespace LessonPages

namespace Disk

variable {d d' d'' : Disk} {path : Text} {place : Place} {spots : List Text → Prop}

/-- A disk has become another one: folders have been added where nothing stood, and files have been
written at some of the given places, where neither a folder nor a link stood. -/
structure Grows (d d' : Disk) (spots : List Text → Prop) : Prop where
  cwd_eq : d'.cwd = d.cwd
  wellFormed : d.WellFormed → d'.WellFormed
  node? : ∀ q, d'.root.node? q = d.root.node? q ∨
    (d.root.node? q = none ∧ d'.root.node? q = some .folder) ∨
    (spots q ∧ d.root.node? q ≠ some .folder ∧ (∀ target, d.root.node? q ≠ some (.link target)) ∧
      ∃ content, d'.root.node? q = some (.file content))

namespace Grows

theorem refl (d : Disk) (spots : List Text → Prop) : d.Grows d spots :=
  ⟨rfl, id, fun _ => .inl rfl⟩

theorem mono (h : d.Grows d' spots) {more : List Text → Prop} (hsub : ∀ q, spots q → more q) :
    d.Grows d' more := by
  refine ⟨h.cwd_eq, h.wellFormed, ?_⟩
  intro q
  rcases h.node? q with hsame | hnew | ⟨hspot, hrest⟩
  · exact .inl hsame
  · exact .inr (.inl hnew)
  · exact .inr (.inr ⟨hsub q hspot, hrest⟩)

theorem folder (h : d.Grows d' spots) {q : List Text} (hq : d.root.node? q = some .folder) :
    d'.root.node? q = some .folder := by
  rcases h.node? q with hsame | ⟨hnone, _⟩ | ⟨_, hnot, _⟩
  · rw [hsame, hq]
  · rw [hq] at hnone
    cases hnone
  · exact (hnot hq).elim

/-- No link is added, and none is lost. -/
theorem link_iff (h : d.Grows d' spots) (q : List Text) (target : Text) :
    d'.root.node? q = some (.link target) ↔ d.root.node? q = some (.link target) := by
  rcases h.node? q with hsame | ⟨hnone, hnew⟩ | ⟨_, _, hnot, content, hnew⟩
  · rw [hsame]
  · simp [hnone, hnew]
  · simp [hnot target, hnew]

theorem trans (h : d.Grows d' spots) (h' : d'.Grows d'' spots) : d.Grows d'' spots := by
  refine ⟨h'.cwd_eq.trans h.cwd_eq, h'.wellFormed ∘ h.wellFormed, ?_⟩
  intro q
  rcases h'.node? q with hsame' | ⟨hnone, hnew⟩ | ⟨hspot, hfolder, hlink, hfile⟩
  · rw [hsame']
    exact h.node? q
  · rcases h.node? q with hsame | ⟨_, hadded⟩ | ⟨_, _, _, content, hwritten⟩
    · exact .inr (.inl ⟨hsame ▸ hnone, hnew⟩)
    · rw [hadded] at hnone
      cases hnone
    · rw [hwritten] at hnone
      cases hnone
  · refine .inr (.inr ⟨hspot, fun hq => hfolder (h.folder hq), ?_, hfile⟩)
    intro target hq
    exact hlink target ((h.link_iff q target).mpr hq)

/-- **A path that leads somewhere leads there still.** -/
theorem locate (h : d.Grows d' spots) {purpose : Purpose}
    (hplace : d.locate purpose path = .ok place) : d'.locate purpose path = .ok place :=
  locate_eq_ok_iff_routed.mpr
    ((locate_eq_ok_iff_routed.mp hplace).mono h.cwd_eq (fun _ => h.folder) h.link_iff)

end Grows

/-! ## Single accesses -/

/-- Setting an entry that holds nothing, where no folder stands, keeps the names as they can be. -/
theorem proper_set (hd : d.root.Proper) {dir : List Text} {name : Text} {e : Entry}
    (hleaf : Folder.Leaf e) (hdir : d.root.node? dir = some .folder) (hname : IsName name) :
    (d.root.set e (dir ++ [name])).Proper := by
  apply hd.set hleaf
  intro n hn
  rcases List.mem_append.mp hn with hn | hn
  · exact hd.isName_of_node? (by rw [hdir]; simp) n hn
  · rwa [List.mem_singleton.mp hn]

/-- An entry that holds nothing, and is no link, is set in a folder where no folder stands. -/
theorem wellFormed_set (hd : d.WellFormed) {dir : List Text} {name : Text} {e : Entry}
    (hleaf : Folder.Leaf e) (hlink : ∀ target, e.node ≠ .link target)
    (hdir : d.root.node? dir = some .folder) (hfolder : d.root.node? (dir ++ [name]) ≠ some .folder)
    (hname : IsName name) : ({ d with root := d.root.set e (dir ++ [name]) } : Disk).WellFormed := by
  refine ⟨⟨proper_set hd.proper hleaf hdir hname, hd.cwd⟩, ?_⟩
  intro q target hq
  rw [Folder.node?_set hleaf hdir hfolder] at hq
  split at hq
  · exact (hlink target (Option.some.inj hq)).elim
  · exact hd.targets q target hq

/-- A file is written in a folder, where neither a folder nor a link stands. -/
theorem grows_of_file {dir : List Text} {name : Text} (hname : d.WellFormed → IsName name)
    (hdir : d.root.node? dir = some .folder) (hfolder : d.root.node? (dir ++ [name]) ≠ some .folder)
    (hlink : ∀ target, d.root.node? (dir ++ [name]) ≠ some (.link target))
    (content : Utf8.Bytes) :
    d.Grows { d with root := d.root.set (.file content) (dir ++ [name]) } (· = dir ++ [name]) := by
  have hnode := Folder.node?_set (.file content) hdir hfolder
  refine ⟨rfl, fun hd => wellFormed_set hd (.file content) (by simp [Entry.node]) hdir hfolder
    (hname hd), ?_⟩
  intro q
  by_cases hq : q = dir ++ [name]
  · subst hq
    refine .inr (.inr ⟨rfl, hfolder, hlink, content, ?_⟩)
    rw [hnode, if_pos rfl]
    rfl
  · refine .inl ?_
    rw [hnode, if_neg hq]

/-- A folder is added in a folder, where nothing stands. -/
theorem grows_of_folder {dir : List Text} {name : Text} (hname : d.WellFormed → IsName name)
    (hdir : d.root.node? dir = some .folder) (hnone : d.root.node? (dir ++ [name]) = none)
    (spots : List Text → Prop) :
    d.Grows { d with root := d.root.set (.folder .empty) (dir ++ [name]) } spots := by
  have hfolder : d.root.node? (dir ++ [name]) ≠ some .folder := by rw [hnone]; simp
  have hnode := Folder.node?_set .empty hdir hfolder
  refine ⟨rfl, fun hd => wellFormed_set hd .empty (by simp [Entry.node]) hdir hfolder
    (hname hd), ?_⟩
  intro q
  by_cases hq : q = dir ++ [name]
  · subst hq
    refine .inr (.inl ⟨hnone, ?_⟩)
    rw [hnode, if_pos rfl]
    rfl
  · refine .inl ?_
    rw [hnode, if_neg hq]

/-- The place at which writing to a path puts the file. -/
def WritesAt (d : Disk) (path : Text) (q : List Text) : Prop :=
  ∃ dir name, d.locate .write path = .ok (.slot dir name false) ∧ q = dir ++ [name]

theorem WritesAt.mono (h : d.Grows d' spots) {q : List Text} (hq : d.WritesAt path q) :
    d'.WritesAt path q := by
  obtain ⟨dir, name, hplace, rfl⟩ := hq
  exact ⟨dir, name, h.locate hplace, rfl⟩

theorem write_grows {content : Utf8.Bytes} (h : d.write path content = .ok d') :
    d.Grows d' (d'.WritesAt path) := by
  obtain ⟨hnul, dir, name, hrouted, hshort, hfolder, rfl⟩ := write_eq_ok_iff_routed.mp h
  -- a link at the end of the path would have been followed
  have hlink : ∀ target, d.root.node? (dir ++ [name]) ≠ some (.link target) := by
    intro target hlink
    have hnot := hrouted.route.followsLast_of_link rfl hlink
    cases hnot
  have hgrows := grows_of_file (fun hd => hrouted.isName hd hnul hshort) hrouted.base_folder hfolder
    hlink content
  refine hgrows.mono ?_
  rintro q rfl
  exact ⟨dir, name, hgrows.locate (locate_eq_ok_iff_routed.mpr hrouted), rfl⟩

theorem makeFolder_grows (h : d.makeFolder path = .ok d') (spots : List Text → Prop) :
    d.Grows d' spots := by
  obtain ⟨hnul, dir, name, slash, hrouted, hshort, hnone, rfl⟩ := makeFolder_eq_ok_routed h
  exact grows_of_folder (fun hd => hrouted.isName hd hnul hshort) hrouted.base_folder hnone spots

/-- To make a folder unless it is there is to make it or to change nothing. -/
theorem ensureFolder_fst {result : Except DiskFault Unit} (h : d.ensureFolder path = (d', result)) :
    d' = d ∨ d.makeFolder path = .ok d' := by
  unfold ensureFolder at h
  split at h <;> cases h
  · exact .inr ‹_›
  · exact .inl rfl
  · exact .inl rfl

/-! ## Folders with all that lead to them -/

/-- Something has to be made before the last name of a path. -/
def LacksFront (d : Disk) (path : Text) : Prop :=
  (Path.headName path).2 ≠ [] ∧ (Path.headName path).1 ≠ [] ∧
    d.holds (Path.headName path).1 = false

/-- What has been tried before the last name of a path has been done, or something was there. -/
def GoesOn (result : Except DiskFault Unit) : Prop :=
  ∀ fault, result = .error fault → fault.isAlreadyExists = true

/-- How a folder is made with all that lead to it: at once, behind a front that is made first, as far
as to a dot at the end, or not at all, where the front stops it. -/
inductive Makes : Disk → Text → Disk → Except DiskFault Unit → Prop where
  | atOnce {d d' : Disk} {path : Text} {result : Except DiskFault Unit} (hfront : ¬ d.LacksFront path)
      (hlast : d.ensureFolder path = (d', result)) : Makes d path d' result
  | behind {d made d' : Disk} {path : Text} {front result : Except DiskFault Unit}
      (hfront : d.LacksFront path) (hmade : Makes d (Path.headName path).1 made front)
      (hgoes : GoesOn front) (hhere : (Path.headName path).2 ≠ Path.here)
      (hlast : made.ensureFolder path = (d', result)) : Makes d path d' result
  | toDot {d d' : Disk} {path : Text} {front : Except DiskFault Unit} (hfront : d.LacksFront path)
      (hmade : Makes d (Path.headName path).1 d' front) (hgoes : GoesOn front)
      (hhere : (Path.headName path).2 = Path.here) : Makes d path d' (.ok ())
  | stops {d d' : Disk} {path : Text} {fault : DiskFault} (hfront : d.LacksFront path)
      (hmade : Makes d (Path.headName path).1 d' (.error fault))
      (hfault : fault.isAlreadyExists = false) : Makes d path d' (.error fault)

theorem goesOn_ok : GoesOn (.ok ()) := by
  rintro fault ⟨⟩

/-- **Folders are made in one of these ways.** -/
theorem makes (d : Disk) (path : Text) : Makes d path (d.makeFolders path).1 (d.makeFolders path).2 := by
  rw [makeFolders]
  split
  · rename_i hfront
    have hmade := makes d (Path.headName path).1
    extract_lets made last
    have hlast : GoesOn made.2 → Makes d path last.1 last.2 := by
      intro hgoes
      by_cases hhere : (Path.headName path).2 = Path.here
      · rw [show last = (made.1, .ok ()) from if_pos hhere]
        exact .toDot hfront hmade hgoes hhere
      · rw [show last = made.1.ensureFolder path from if_neg hhere]
        exact .behind hfront hmade hgoes hhere rfl
    split
    · rename_i hok
      exact hlast (hok ▸ goesOn_ok)
    · rename_i fault hfault
      split
      · rename_i hexists
        apply hlast
        intro other hother
        rwa [← Except.error.inj (hfault.symm.trans hother)]
      · rename_i hexists
        rw [show (d.makeFolders (Path.headName path).1).2 = .error fault from hfault] at hmade
        exact .stops hfront hmade (by simpa using hexists)
  · rename_i hfront
    exact .atOnce hfront rfl
termination_by path.length
decreasing_by
  rename_i h
  exact Path.length_headName_lt h.1

/-- **What holds of making one folder holds of making all folders that lead to one**, also where that
fails on the way. -/
theorem Makes.induction {R : Disk → Disk → Prop} (hrefl : ∀ d, R d d)
    (htrans : ∀ {d d' d''}, R d d' → R d' d'' → R d d'')
    (hmake : ∀ {d d' path}, makeFolder d path = .ok d' → R d d') {result : Except DiskFault Unit}
    (h : Makes d path d' result) : R d d' := by
  have hensure : ∀ {d d' : Disk} {path : Text} {result : Except DiskFault Unit},
      d.ensureFolder path = (d', result) → R d d' := by
    intro d d' path result h
    rcases ensureFolder_fst h with rfl | hmade
    · exact hrefl _
    · exact hmake hmade
  induction h with
  | atOnce _ hlast => exact hensure hlast
  | behind _ _ _ _ hlast ih => exact htrans ih (hensure hlast)
  | toDot _ _ _ _ ih => exact ih
  | stops _ _ _ ih => exact ih

theorem ensureFolders_fst (d : Disk) (path : Text) :
    (d.ensureFolders path).1 = (d.makeFolders path).1 := by
  unfold ensureFolders
  split
  · rename_i hmade
    rw [hmade]
  · rename_i hmade
    rw [hmade]

/-- Nothing can be made at the empty path. -/
theorem ensureFolders_nil (d : Disk) :
    d.ensureFolders [] = (d, .error (.ofDisk .makeFolder [] (refuse [] .notFound))) := by
  unfold ensureFolders
  rw [makeFolders]
  rfl

theorem ensureFolders_grows (d : Disk) (path : Text) (spots : List Text → Prop) :
    d.Grows (d.ensureFolders path).1 spots := by
  rw [ensureFolders_fst]
  refine (makes d path).induction (R := fun d d' => d.Grows d' spots) (fun d => .refl d spots)
    (fun h h' => h.trans h') ?_
  intro d d' path h
  exact makeFolder_grows h spots

theorem writeInFolder_grows (d : Disk) (folder path text : Text) :
    d.Grows (d.writeInFolder folder path text).1
      ((d.writeInFolder folder path text).1.WritesAt path) := by
  have hfolders := ensureFolders_grows d folder
  unfold writeInFolder
  split
  · rename_i hmade
    rw [hmade] at hfolders
    exact hfolders _
  · rename_i made hmade
    rw [hmade] at hfolders
    unfold writeText
    cases hwrite : made.write path (Utf8.encode text) with
    | error _ => exact hfolders _
    | ok written => exact (hfolders _).trans (write_grows hwrite)

end Disk

variable {d : Disk} {s : Settings}

/-- The path of the page of a lesson. -/
def Settings.pagePath (s : Settings) (lesson : Text) : Text :=
  pathBelow s.destination (pageName s.extension lesson)

/-- The path of the index. -/
def Settings.indexPath (s : Settings) : Text := Path.join s.destination s.indexName

/-- Converting a lesson, or failing to, changes no file but its page. -/
theorem convertFile_grows (d : Disk) (s : Settings) (lesson : Text) :
    d.Grows (convertFile d s lesson).1 ((convertFile d s lesson).1.WritesAt (s.pagePath lesson)) := by
  unfold convertFile
  split
  · exact .refl d _
  · rename_i text _
    have hwritten := Disk.writeInFolder_grows d (Path.parent (s.pagePath lesson)) (s.pagePath lesson)
      (Page.ofLesson s.language text)
    dsimp only
    split
    · rename_i hwrite
      rw [Settings.pagePath, hwrite] at hwritten
      exact hwritten
    · rename_i hwrite
      rw [Settings.pagePath, hwrite] at hwritten
      exact hwritten

/-- Writing the index, or failing to, changes no file but the index. -/
theorem generateIndex_grows (d : Disk) (s : Settings) (pages : List Text) :
    d.Grows (generateIndex d s.destination pages s.indexName).1
      ((generateIndex d s.destination pages s.indexName).1.WritesAt s.indexPath) := by
  have hwritten := Disk.writeInFolder_grows d s.destination s.indexPath (Index.page pages)
  unfold generateIndex
  dsimp only
  split
  · rename_i hwrite
    rw [Settings.indexPath, hwrite] at hwritten
    exact hwritten
  · rename_i hwrite
    rw [Settings.indexPath, hwrite] at hwritten
    exact hwritten

end LessonPages
