import LessonPages.Proofs.Route

/-!
# Where paths lead in a tree without links

Without links, following a path is walking along names, and what it is followed for does not matter.
So a path has one target, which can be told from the path alone.

* `Walks` — a walk along names, by its steps; `Route.walks`, `Walks.route` — without links, a route is
  a walk.
* `Walks.getLast?_solidParts`, `Walks.getLast?_of_slash` — the name that a walk ends at.
* `Disk.target` — the names from the root that a path stands for.
* `Disk.LeadsTo` — what it takes for a path to lead somewhere; `Disk.locate_eq_ok_iff` — it is all
  that it takes.
* `LeadsTo.mono` — it takes folders only, so more entries do no harm.
-/

namespace LessonPages

/-- A walk along names from the folder `dir` of a tree to a place. -/
inductive Walks (root : Folder) : List Text → List Text → Place → Prop where
  | stay {dir : List Text} : Walks root dir [] (.folder dir)
  | skip {dir rest : List Text} {name : Text} {place : Place} (hname : name = [] ∨ name = Path.here) :
      Walks root dir rest place → Walks root dir (name :: rest) place
  | up {dir rest : List Text} {place : Place} :
      Walks root dir.dropLast rest place → Walks root dir (Path.up :: rest) place
  | last {dir rest : List Text} {name : Text} (hname : IsStep name) (hrest : rest.all List.isEmpty) :
      Walks root dir (name :: rest) (.slot dir name (!rest.isEmpty))
  | into {dir rest : List Text} {name : Text} {place : Place} (hname : IsStep name)
      (hrest : rest.all List.isEmpty = false) (hshort : isLongName name = false)
      (hfolder : root.node? (dir ++ [name]) = some .folder) :
      Walks root (dir ++ [name]) rest place → Walks root dir (name :: rest) place

/-! ## Without links, a route is a walk -/

variable {root root' : Folder} {dir names : List Text} {place : Place}

theorem Route.walks (hroot : root.Linkless) {purpose : Purpose} {links : Nat}
    (h : Route root purpose links dir names place) : Walks root dir names place := by
  induction h with
  | stay => exact .stay
  | skip hname _ ih => exact .skip hname ih
  | up _ ih => exact .up ih
  | last hname hrest _ => exact .last hname hrest
  | into hname hrest hshort hfolder _ ih => exact .into hname hrest hshort hfolder ih
  | link _ hlink _ _ _ _ => exact (hroot.node?_ne_link _ _ hlink).elim

theorem Walks.route (hroot : root.Linkless) (purpose : Purpose) (links : Nat)
    (h : Walks root dir names place) : Route root purpose links dir names place := by
  induction h with
  | stay => exact .stay
  | skip hname _ ih => exact .skip hname ih
  | up _ ih => exact .up ih
  | last hname hrest =>
    exact .last hname hrest fun target hlink => (hroot.node?_ne_link _ target hlink).elim
  | into hname hrest hshort hfolder _ ih => exact .into hname hrest hshort hfolder ih

namespace Walks

/-! ## What a walk does -/

/-- More folders do no harm to a walk. -/
theorem mono (hgrow : ∀ q, root.node? q = some .folder → root'.node? q = some .folder)
    (h : Walks root dir names place) : Walks root' dir names place := by
  induction h with
  | stay => exact .stay
  | skip hname _ ih => exact .skip hname ih
  | up _ ih => exact .up ih
  | last hname hrest => exact .last hname hrest
  | into hname hrest hshort hfolder _ ih => exact .into hname hrest hshort (hgrow _ hfolder) ih

/-- A walk ends in a folder. -/
theorem base_folder (h : Walks root dir names place) (hdir : root.node? dir = some .folder) :
    root.node? place.base = some .folder := by
  induction h with
  | stay => exact hdir
  | skip _ _ ih => exact ih hdir
  | up _ ih => exact ih (Folder.node?_dropLast hdir)
  | last _ _ => exact hdir
  | into _ _ _ hfolder _ ih => exact ih hfolder

/-- A walk that ends at a name ends at the last of those that it goes along. -/
theorem getLast?_solidParts {dir' : List Text} {name : Text} {slash : Bool}
    (h : Walks root dir names place) (hplace : place = .slot dir' name slash) :
    (solidParts names).getLast? = some name ∧ IsStep name := by
  have hcons : ∀ (first : Text) {rest : List Text}, (solidParts rest).getLast? = some name →
      (solidParts (first :: rest)).getLast? = some name := by
    intro first rest hrest
    by_cases hnil : first = []
    · rw [hnil, solidParts_cons_nil]
      exact hrest
    · rw [solidParts_cons hnil, List.getLast?_cons, hrest]
      rfl
  induction h with
  | stay => cases hplace
  | skip _ _ ih | up _ ih | into _ _ _ _ _ ih => exact ⟨hcons _ (ih hplace).1, (ih hplace).2⟩
  | last hname hrest =>
    cases hplace
    rw [solidParts_cons hname.ne_nil, solidParts_eq_nil_iff.mpr hrest]
    exact ⟨rfl, hname⟩

/-- Where a slash stands behind the name, nothing stands behind the slash. -/
theorem getLast?_of_slash {dir' : List Text} {name : Text} (h : Walks root dir names place)
    (hplace : place = .slot dir' name true) :
    names.getLast? = some [] := by
  have hcons : ∀ (first : Text) {rest : List Text}, rest.getLast? = some [] →
      (first :: rest).getLast? = some [] := by
    intro first rest hrest
    rw [List.getLast?_cons, hrest]
    rfl
  induction h with
  | stay => cases hplace
  | skip _ _ ih | up _ ih | into _ _ _ _ _ ih => exact hcons _ (ih hplace)
  | @last dir rest n hname hrest =>
    apply hcons
    obtain ⟨part, hpart⟩ : ∃ part, rest.getLast? = some part := by
      have hne : rest ≠ [] := by simpa using (Place.slot.inj hplace).2.2
      exact ⟨_, List.getLast?_eq_some_getLast hne⟩
    rw [hpart, ← List.isEmpty_iff.mp (List.all_eq_true.mp hrest part (List.mem_of_getLast? hpart))]

theorem skip_all {skipped : List Text} (hskipped : skipped.all List.isEmpty)
    (h : Walks root dir names place) : Walks root dir (skipped ++ names) place := by
  induction skipped with
  | nil => exact h
  | cons name rest ih =>
    rw [List.all_cons, Bool.and_eq_true, List.isEmpty_iff] at hskipped
    exact .skip (.inl hskipped.1) (ih hskipped.2)

/-- An empty name on the way makes no difference. -/
theorem drop_empty {before after : List Text} (hafter : after.all List.isEmpty = false)
    (h : Walks root dir (before ++ [] :: after) place) : Walks root dir (before ++ after) place := by
  induction before generalizing dir with
  | nil =>
    cases h with
    | skip _ h => exact h
    | last hname _ => exact (hname.ne_nil rfl).elim
    | into hname _ _ _ _ => exact (hname.ne_nil rfl).elim
  | cons name before ih =>
    cases h with
    | skip hname h => exact .skip hname (ih h)
    | up h => exact .up (ih h)
    | last hname hrest =>
      have hgoes : (before ++ [] :: after).all List.isEmpty = false := by
        rw [List.all_append, List.all_cons, hafter, Bool.and_false, Bool.and_false]
      exact (Bool.false_ne_true (hgoes.symm.trans hrest)).elim
    | into hname _ hshort hfolder h =>
      have hgoes : (before ++ after).all List.isEmpty = false := by
        rw [List.all_append, hafter, Bool.and_false]
      exact .into hname hgoes hshort hfolder (ih h)

/-- A walk goes on from the folder at which another one ends. -/
theorem append (hroot : root.Proper) {more : List Text} {place' : Place}
    (h : Walks root dir names place) (hfolder : root.node? place.names = some .folder)
    (hmore : more.all List.isEmpty = false) (h' : Walks root place.names more place') :
    Walks root dir (names ++ more) place' := by
  induction h with
  | stay => exact h'
  | skip hname _ ih => exact .skip hname (ih hfolder h')
  | up _ ih => exact .up (ih hfolder h')
  | @last dir rest name hname hrest =>
    -- the name at the end of the first walk was not measured; as a folder's name it is short
    have hshort := (hroot.isName_of_node? (by rw [hfolder]; simp) name (by simp [Place.names])).short
    have hgoes : (rest ++ more).all List.isEmpty = false := by
      rw [List.all_append, hmore, Bool.and_false]
    exact .into hname hgoes hshort hfolder (h'.skip_all hrest)
  | @into dir rest name place hname hrest hshort hinto _ ih =>
    have hgoes : (rest ++ more).all List.isEmpty = false := by
      rw [List.all_append, hrest, Bool.false_and]
    exact .into hname hgoes hshort hinto (ih hfolder h')

end Walks

theorem follow_skip {name : Text} (h : name = [] ∨ name = Path.here) (before : List Text) :
    Path.follow true before name = before := by
  unfold Path.follow
  rw [if_pos (by simpa using h)]

theorem follow_step {name : Text} (h : IsStep name) (before : List Text) :
    Path.follow true before name = name :: before := by
  unfold Path.follow
  rw [if_neg (by simp [h.ne_nil, h.ne_here]), if_neg h.ne_up]

theorem follow_up {before : List Text} (h : Path.up ∉ before) :
    Path.follow true before Path.up = before.tail := by
  unfold Path.follow
  rw [if_neg (by decide), if_pos rfl]
  cases before with
  | nil => rfl
  | cons last rest =>
    have hlast : last ≠ Path.up := fun hup => h (hup ▸ List.mem_cons_self)
    show (if last = Path.up then _ else _) = rest
    rw [if_neg hlast]

/-- A name that makes the way longer comes last on it. -/
theorem follow_eq_cons {before : List Text} {name : Text}
    (h : before.length < (Path.follow true before name).length) :
    Path.follow true before name = name :: before := by
  unfold Path.follow at h ⊢
  split at h
  · omega
  · rename_i hskip
    rw [if_neg hskip]
    split at h
    · rename_i hup
      rw [if_pos hup]
      cases before with
      | nil => simp at h
      | cons last rest =>
        dsimp only at h ⊢
        split at h
        · rename_i hlast
          rw [if_pos hlast, hup]
        · simp only [List.length_cons] at h
          omega
    · rename_i hup
      rw [if_neg hup]

theorem foldl_follow_of_empty {names : List Text} (h : names.all List.isEmpty) (before : List Text) :
    names.foldl (Path.follow true) before = before := by
  induction names with
  | nil => rfl
  | cons name rest ih =>
    rw [List.all_cons, Bool.and_eq_true, List.isEmpty_iff] at h
    rw [List.foldl_cons, follow_skip (.inl h.1), ih h.2]

theorem foldl_follow_of_steps {names : List Text} (h : ∀ name ∈ names, IsStep name)
    (before : List Text) : names.foldl (Path.follow true) before = names.reverse ++ before := by
  induction names generalizing before with
  | nil => rfl
  | cons name rest ih =>
    have hrest : ∀ n ∈ rest, IsStep n := by
      intro n hn
      exact h n (List.mem_cons_of_mem _ hn)
    rw [List.foldl_cons, follow_step (h name List.mem_cons_self), ih hrest, List.reverse_cons,
      List.append_assoc]
    rfl

/-- The place of a walk is told by the names alone. -/
theorem Walks.names_eq {root : Folder} {dir names : List Text} {place : Place}
    (h : Walks root dir names place) (hdir : Path.up ∉ dir) :
    place.names = (names.foldl (Path.follow true) dir.reverse).reverse := by
  induction h with
  | stay => simp [Place.names]
  | skip hname _ ih => rw [List.foldl_cons, follow_skip hname, ih hdir]
  | @up dir rest place _ ih =>
    rw [List.foldl_cons, follow_up (by simpa using hdir), ih fun h => hdir (List.dropLast_subset _ h),
      List.tail_reverse]
  | last hname hrest =>
    rw [List.foldl_cons, follow_step hname, foldl_follow_of_empty hrest]
    simp [Place.names]
  | @into dir rest name place hname _ _ _ _ ih =>
    have hup : Path.up ∉ dir ++ [name] := by
      simp only [List.mem_append, List.mem_singleton, not_or]
      exact ⟨hdir, hname.ne_up.symm⟩
    rw [List.foldl_cons, follow_step hname, ih hup, List.reverse_append]
    rfl

/-! ## Where a path leads -/

namespace Disk

/-- The names from the root that a path stands for, as far as the path itself can tell. -/
def target (d : Disk) (path : Text) : List Text :=
  ((path.splitOn '/').foldl (Path.follow true) (d.startNames path).reverse).reverse

theorem target_congr {d d' : Disk} (hcwd : d'.cwd = d.cwd) (path : Text) :
    d'.target path = d.target path := by
  rw [target, target, startNames_congr hcwd]

/-- A path leads to a place of a tree without links. -/
structure LeadsTo (d : Disk) (path : Text) (place : Place) : Prop where
  ne_nil : path ≠ []
  short : isLongPath path = false
  start : d.root.node? (d.startNames path) = some .folder
  walks : Walks d.root (d.startNames path) (path.splitOn '/') place

/-- A disk with names as they can be and without links. -/
structure Plain (d : Disk) : Prop where
  proper : d.root.Proper
  linkless : d.root.Linkless
  cwd : ∀ name ∈ d.cwd, IsName name

theorem Plain.wellFormed {d : Disk} (hd : d.Plain) : d.WellFormed :=
  ⟨⟨hd.proper, hd.cwd⟩, fun q target hlink => (hd.linkless.node?_ne_link q target hlink).elim⟩

end Disk

namespace Disk

variable {d d' : Disk} {path : Text} {place : Place}

theorem Routed.leadsTo (hroot : d.root.Linkless) {purpose : Purpose}
    (h : d.Routed purpose path place) : d.LeadsTo path place :=
  ⟨h.ne_nil, h.short, h.start, h.route.walks hroot⟩

theorem LeadsTo.routed (hroot : d.root.Linkless) (h : d.LeadsTo path place) (purpose : Purpose) :
    d.Routed purpose path place :=
  ⟨h.ne_nil, h.short, h.start, h.walks.route hroot purpose linkLimit⟩

/-- **Without links, a path is followed to where it leads, whatever it is followed for.** -/
theorem locate_eq_ok_iff (hroot : d.root.Linkless) (purpose : Purpose) :
    d.locate purpose path = .ok place ↔ d.LeadsTo path place :=
  locate_eq_ok_iff_routed.trans ⟨Routed.leadsTo hroot, fun h => h.routed hroot purpose⟩

theorem up_not_mem_startNames (hcwd : ∀ name ∈ d.cwd, IsName name) (path : Text) :
    Path.up ∉ d.startNames path := by
  unfold startNames
  split
  · exact List.not_mem_nil
  · exact fun hup => (hcwd Path.up hup).ne_up rfl

namespace LeadsTo

theorem names_eq (h : d.LeadsTo path place) (hd : d.Plain) : place.names = d.target path :=
  h.walks.names_eq (up_not_mem_startNames hd.cwd path)

theorem base_folder (h : d.LeadsTo path place) : d.root.node? place.base = some .folder :=
  h.walks.base_folder h.start

/-- A path that leads somewhere leads there still when there are more folders. -/
theorem mono (hcwd : d'.cwd = d.cwd)
    (hgrow : ∀ q, d.root.node? q = some .folder → d'.root.node? q = some .folder)
    (h : d.LeadsTo path place) : d'.LeadsTo path place := by
  have hstart := startNames_congr hcwd path
  refine ⟨h.ne_nil, h.short, ?_, ?_⟩
  · rw [hstart]
    exact hgrow _ h.start
  · rw [hstart]
    exact h.walks.mono hgrow

end LeadsTo

end Disk

end LessonPages
