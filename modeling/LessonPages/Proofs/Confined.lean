import LessonPages.Proofs.Folders
import LessonPages.Proofs.OwnPages

/-!
# Where folders are made

A run makes the folder of its pages with all that lead to it, wherever these lie. From then on something
stands at each name on the way, and no folder is made but in the folder of the pages.

* `Disk.way` — where the first names of a path lead; `Disk.Stands` — something stands everywhere on the
  way.
* `Disk.Makes.changes` — folders are made on the way only; `Disk.Makes.stands` — then the way stands.
* `Disk.ChangesBelow`, `Disk.writeInFolder_changesBelow` — what is done below a folder to which the way
  stands.
* `Converts.changesBelow`, `Settings.Indexes.changesBelow` — pages and index.
-/

namespace LessonPages

namespace Disk

variable {d d' d'' : Disk} {path front top folder : Text} {names more : List Text} {place : Place}
  {spots : List (List Text)} {result : Except DiskFault Unit}

/-! ## The way of a path -/

/-- Where the first names of a path lead, as far as the path itself can tell. -/
def way (d : Disk) (path : Text) (names : List Text) : List Text :=
  (names.foldl (Path.follow true) (d.startNames path).reverse).reverse

theorem way_names : d.way path (Path.names path) = d.target path :=
  congrArg List.reverse (foldl_follow_solidParts _ _)

/-- Where names lead depends only on where they start from. -/
theorem way_congr (h : d.startNames front = d.startNames path) (names : List Text) :
    d.way front names = d.way path names := by
  rw [way, way, h]

theorem way_append (hmore : ∀ name ∈ more, IsStep name) :
    d.way path (names ++ more) = d.way path names ++ more := by
  rw [way, way, List.foldl_append, foldl_follow_of_steps hmore, List.reverse_append, List.reverse_reverse]

theorem way_here : d.way path (names ++ [Path.here]) = d.way path names := by
  rw [way, way, List.foldl_append, List.foldl_cons, follow_skip (.inr rfl), List.foldl_nil]

theorem Extends.way_eq (h : d.Extends d' spots) (path : Text) (names : List Text) :
    d'.way path names = d.way path names := by
  rw [way, way, startNames_congr h.cwd_eq]

/-- Something stands wherever the first names of a path lead. -/
def Stands (d : Disk) (path : Text) : Prop :=
  ∀ names, names <+: Path.names path → d.root.node? (d.way path names) ≠ none

theorem Extends.node?_ne_none (h : d.Extends d' spots) {q : List Text} (hq : d.root.node? q ≠ none) :
    d'.root.node? q ≠ none := by
  rcases h.node? q with hsame | ⟨hnone, -⟩ | ⟨-, -, content, hfile⟩
  · rwa [hsame]
  · exact (hq hnone).elim
  · rw [hfile]
    simp

theorem Stands.extends (h : d.Stands path) (hext : d.Extends d' spots) : d'.Stands path := by
  intro names hnames
  rw [hext.way_eq]
  exact hext.node?_ne_none (h names hnames)

/-- The way of a path that leads to something stands. -/
theorem LeadsTo.stands (hd : d.Plain) (h : d.LeadsTo path place)
    (hend : d.root.node? place.names ≠ none) : d.Stands path := by
  rintro names ⟨more, hmore⟩
  by_cases hnil : more = []
  · rw [hnil, List.append_nil] at hmore
    rwa [hmore, way_names, ← h.names_eq hd]
  · have hsolid : solidParts names = names := by
      refine List.filter_eq_self.mpr fun name hname => ?_
      exact (List.mem_filter.mp (hmore ▸ List.mem_append_left _ hname : name ∈ Path.names path)).2
    obtain ⟨through, _, _, hroute, hfolder, -, -⟩ := (h.routed hd.linkless .look).route.through h.start
      (show Path.names path = solidParts names ++ more by rw [hsolid, hmore]) hnil
    rw [way, ← (hroute.walks hd.linkless).names_eq (up_not_mem_startNames hd.cwd path), hfolder]
    simp

/-! ## Folders that are made -/

/-- A folder that is made unless it is there changes what stands at its own place only. -/
theorem ensureFolder_changes (hd : d.Plain) (h : d.ensureFolder path = (d', result)) {q : List Text}
    (hq : d'.root.node? q ≠ d.root.node? q) : d.root.node? q = none ∧ q = d.target path := by
  rcases ensureFolder_fst h with rfl | hmade
  · exact (hq rfl).elim
  · obtain ⟨dir, name, htarget, -, hdir, hnone, rfl⟩ := makeFolder_eq_ok hd hmade
    rw [Folder.node?_set .empty hdir (by rw [hnone]; simp)] at hq
    split at hq
    · rename_i heq
      exact ⟨heq ▸ hnone, heq.trans htarget.symm⟩
    · exact (hq rfl).elim

/-- **Making folders adds some on the way, and changes nothing else.** -/
theorem Makes.changes (hd : d.Plain) (h : Makes d path d' result) {q : List Text}
    (hq : d'.root.node? q ≠ d.root.node? q) :
    d.root.node? q = none ∧ ∃ names, names <+: Path.names path ∧ q = d.way path names := by
  have hfront : ∀ {d : Disk} {path : Text} {q : List Text}, d.LacksFront path →
      (∃ names, names <+: Path.names (Path.headName path).1 ∧
        q = d.way (Path.headName path).1 names) →
      ∃ names, names <+: Path.names path ∧ q = d.way path names := by
    rintro d path q ⟨htail, hne, -⟩ ⟨names, hnames, hq⟩
    refine ⟨names, hnames.trans ⟨_, (Path.names_headName htail).symm⟩, ?_⟩
    rw [hq, way_congr (startNames_of_isPrefix (Path.headName_isPrefix path) hne)]
  induction h with
  | atOnce _ hlast =>
    obtain ⟨hnone, htarget⟩ := ensureFolder_changes hd hlast hq
    exact ⟨hnone, _, List.prefix_refl _, htarget.trans way_names.symm⟩
  | @behind made _ _ _ _ hlacks hmade _ _ hlast ih =>
    have hext := hmade.extends hd
    by_cases hsame : made.root.node? q = d.root.node? q
    · rw [← hsame] at hq ⊢
      obtain ⟨hnone, htarget⟩ := ensureFolder_changes (hext.plain hd) hlast hq
      exact ⟨hnone, _, List.prefix_refl _, by rw [way_names, htarget, hext.target_eq]⟩
    · obtain ⟨hnone, hnames⟩ := ih hsame
      exact ⟨hnone, hfront hlacks hnames⟩
  | toDot hlacks _ _ _ ih | stops hlacks _ _ ih =>
    obtain ⟨hnone, hnames⟩ := ih hq
    exact ⟨hnone, hfront hlacks hnames⟩

theorem ensureFolder_stands (hd : d.Plain) (h : d.ensureFolder path = (d', result))
    (hgoes : GoesOn result) : d'.Stands path := by
  cases result with
  | ok =>
    have hd' : d'.Plain := by
      rcases ensureFolder_fst h with rfl | hmade
      · exact hd
      · exact (makeFolder_extends hd hmade).plain hd
    obtain ⟨-, ⟨place, hleads⟩, hfolder⟩ := isFolder_eq_true hd' (isFolder_of_ensureFolder hd h)
    refine hleads.stands hd' ?_
    rw [hleads.names_eq hd', hfolder]
    simp
  | error fault =>
    unfold ensureFolder at h
    split at h
    · cases h
    · rename_i r hmade
      obtain ⟨rfl, hrefused⟩ := Prod.mk.inj h
      split at hrefused
      · cases hrefused
      · cases hrefused
        obtain ⟨-, place, hleads, hspot⟩ := leadsTo_of_alreadyExists hd hmade (hgoes _ rfl)
        refine hleads.stands hd ?_
        cases place with
        | folder names =>
          have hfolder : d.root.node? names = some .folder := hleads.base_folder
          rw [Place.names, hfolder]
          simp
        | slot dir name slash =>
          rw [folderSpot] at hspot
          split at hspot
          · cases hspot
          · split at hspot
            · rename_i e hget
              rw [Place.names, Folder.node?, hget]
              simp
            · cases hspot
    · cases h
      cases hgoes _ rfl

/-- **Where folders have been made, or something was in their place, the way stands.** -/
theorem Makes.stands (hd : d.Plain) (h : Makes d path d' result) (hgoes : GoesOn result) :
    d'.Stands path := by
  induction h with
  | atOnce _ hlast => exact ensureFolder_stands hd hlast hgoes
  | behind _ hmade _ _ hlast _ => exact ensureFolder_stands ((hmade.extends hd).plain hd) hlast hgoes
  | @toDot made path _ hlacks _ hfront hhere ih =>
    obtain ⟨htail, hne, -⟩ := hlacks
    have hstart := startNames_of_isPrefix (d := made) (Path.headName_isPrefix path) hne
    have hstands := ih hfront
    intro names hnames
    rw [Path.names_headName htail, hhere] at hnames
    -- the dot at the end stays where the names before it lead
    rcases List.prefix_concat_iff.mp hnames with rfl | hnames
    · rw [way_here, ← way_congr hstart]
      exact hstands _ (List.prefix_refl _)
    · rw [← way_congr hstart]
      exact hstands names hnames
  | stops _ _ hfault =>
    rw [hgoes _ rfl] at hfault
    cases hfault

theorem ensureFolders_stands (hd : d.Plain) (h : d.ensureFolders path = (d', .ok ())) :
    d'.Stands path :=
  (makes_of_ensureFolders h).stands hd goesOn_ok

/-! ## Changes below a folder -/

/-- Nothing changes but what lies below a place. -/
def ChangesBelow (d d' : Disk) (base : List Text) : Prop :=
  ∀ q, d'.root.node? q ≠ d.root.node? q → base <+: q

theorem ChangesBelow.refl (d : Disk) (base : List Text) : d.ChangesBelow d base :=
  fun _ hq => (hq rfl).elim

theorem ChangesBelow.trans {base : List Text} (h : d.ChangesBelow d' base)
    (h' : d'.ChangesBelow d'' base) : d.ChangesBelow d'' base := by
  intro q hq
  by_cases hsame : d'.root.node? q = d.root.node? q
  · exact h' q (hsame ▸ hq)
  · exact h q hsame

/-- **Where the way to a folder stands, folders below it are made there only.** -/
theorem Makes.changesBelow (hd : d.Plain) (h : Makes d folder d' result) (hstands : d.Stands top)
    (hstart : d.startNames folder = d.startNames top)
    (hnames : Path.names folder <+: Path.names top ++ more) (hmore : ∀ name ∈ more, IsStep name) :
    d.ChangesBelow d' (d.target top) := by
  intro q hq
  obtain ⟨hnone, names, hprefix, rfl⟩ := h.changes hd hq
  rw [way_congr hstart] at hnone ⊢
  obtain ⟨behind, hbehind⟩ := hprefix.trans hnames
  rcases List.append_eq_append_iff.mp hbehind with ⟨before, hbefore, -⟩ | ⟨after, rfl, hafter⟩
  · exact (hstands names ⟨before, hbefore.symm⟩ hnone).elim
  · rw [way_append fun name hname => hmore name (hafter ▸ List.mem_append_left _ hname), way_names]
    exact List.prefix_append _ _

/-- A file below a folder to which the way stands is written there, and so are its folders. -/
theorem writeInFolder_changesBelow (hd : d.Plain) {text : Text}
    (h : d.writeInFolder folder path text = (d', .ok ())) (hstands : d.Stands top)
    (hstart : d.startNames folder = d.startNames top)
    (hnames : Path.names folder <+: Path.names top ++ more) (hmore : ∀ name ∈ more, IsStep name)
    (hpath : d.target top <+: d.target path) : d.ChangesBelow d' (d.target top) := by
  unfold writeInFolder at h
  split at h
  · cases h
  · rename_i made hmade
    have hmakes := makes_of_ensureFolders hmade
    have hext := hmakes.extends hd
    refine (hmakes.changesBelow hd hstands hstart hnames hmore).trans ?_
    cases hwrite : made.write path (Utf8.encode text) with
    | error fault =>
      rw [writeText, hwrite] at h
      cases h
    | ok written =>
      rw [writeText, hwrite] at h
      cases h
      intro q hq
      rw [node?_of_write (hext.plain hd) hwrite] at hq
      split at hq
      · rename_i heq
        rwa [heq, hext.target_eq]
      · exact (hq rfl).elim

end Disk

variable {d d' between last : Disk} {s : Settings} {lessons pages : List Text}

/-- **Where the way to the folder of the pages stands, converting lessons changes nothing outside it.** -/
theorem Converts.changesBelow (h : Converts s d lessons d') (hd : d.Plain)
    (hne : s.destination ≠ []) (hstands : d.Stands s.destination) (hlessons : PlainNames lessons)
    (hextension : '/' ∉ dotted s.extension) : d.ChangesBelow d' (d.target s.destination) := by
  induction h with
  | done => exact .refl _ _
  | @next d d' _ lesson page rest hconvert hrest ih =>
    obtain ⟨-, hext, -⟩ := convertFile_ok hd hconvert
    obtain ⟨rfl, text, -, hwrite⟩ := convertFile_eq_ok_iff.mp hconvert
    have hlesson := hlessons lesson List.mem_cons_self
    have hsteps := isStep_of_mem_pageName hlesson.1 hlesson.2 hextension
    have hslash : ∀ part ∈ (pageName s.extension lesson).splitOn '/', '/' ∉ part :=
      fun part hpart => (mem_splitOn hpart).1
    have hparent : Path.parent (s.pagePath lesson) ≠ [] := by
      intro hnil
      rw [hnil, Disk.writeInFolder, Disk.ensureFolders_nil] at hwrite
      cases hwrite
    have hstart : d.startNames (Path.parent (s.pagePath lesson)) = d.startNames s.destination := by
      rw [Disk.startNames_of_isPrefix (Path.parent_isPrefix _) hparent]
      exact (Disk.startNames_of_isPrefix (Path.isPrefix_joinAll hslash _) hne).symm
    have hnames : Path.names (s.pagePath lesson) =
        Path.names s.destination ++ (pageName s.extension lesson).splitOn '/' := by
      refine (solidParts_joinAll hslash _).trans (congrArg (Path.names s.destination ++ ·) ?_)
      exact List.filter_eq_self.mpr fun part hpart => by simpa using (hsteps part hpart).ne_nil
    have hfirst := Disk.writeInFolder_changesBelow hd hwrite hstands hstart
      ((Path.names_parent_prefix _).trans (hnames ▸ List.prefix_refl _)) hsteps
      (by rw [Settings.pagePath, Disk.target_pathBelow_of_steps hsteps]; exact List.prefix_append _ _)
    have hlater := ih (hext.plain hd) (hstands.extends hext)
      fun other hother => hlessons other (List.mem_cons_of_mem _ hother)
    rw [hext.target_eq] at hlater
    exact hfirst.trans hlater

/-- Where the way to its folder stands, an index changes nothing outside it. -/
theorem Settings.Indexes.changesBelow (h : s.Indexes pages d d') (hd : d.Plain)
    (hstands : d.Stands s.destination)
    (hindex : s.writeIndex = true → d.target s.destination <+: d.target s.indexPath) :
    d.ChangesBelow d' (d.target s.destination) := by
  unfold Settings.Indexes at h
  split at h
  · rename_i hwanted
    obtain ⟨path, hindexed⟩ := h
    obtain ⟨-, hwrite⟩ := generateIndex_eq_ok_iff.mp hindexed
    exact Disk.writeInFolder_changesBelow hd hwrite hstands rfl (List.prefix_append _ []) (by simp)
      (hindex hwanted)
  · rw [h]
    exact .refl _ _

end LessonPages
