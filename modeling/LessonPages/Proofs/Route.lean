import LessonPages.Disk.Access
import LessonPages.Proofs.Tree

/-!
# Where paths lead

Following a path is taking a route: it is told by the folders gone through and the links met, that is
by what stands in the tree, and not by how the program goes about it.

* `Route` — a way along names and through links, by its steps; `follow_eq_ok_iff_route` — following
  a path is taking a route.
* `Route.mono` — more folders and files do no harm to a route.
* `Route.through` — a route along more names goes through the end of a route along the first ones.
* `Climbs` — names that lead out of a folder; `Route.stays_below` — where no link stands, a route that
  does not climb stays below its start.
* `Disk.Routed` — what it takes for a path to lead somewhere; `Disk.locate_eq_ok_iff_routed` — it is
  all that it takes.
-/

namespace LessonPages

/-- The names that lead to a place. -/
def Place.names : Place → List Text
  | .folder names => names
  | .slot dir name _ => dir ++ [name]

/-- The names of the folder in which a place was looked for. -/
def Place.base : Place → List Text
  | .folder names => names
  | .slot dir _ _ => dir

/-- A way along names from the folder `dir` of a tree to a place, through at most `links` links. -/
inductive Route (root : Folder) (purpose : Purpose) :
    Nat → List Text → List Text → Place → Prop where
  | stay {links : Nat} {dir : List Text} : Route root purpose links dir [] (.folder dir)
  | skip {links : Nat} {dir rest : List Text} {name : Text} {place : Place}
      (hname : name = [] ∨ name = Path.here) :
      Route root purpose links dir rest place → Route root purpose links dir (name :: rest) place
  | up {links : Nat} {dir rest : List Text} {place : Place} :
      Route root purpose links dir.dropLast rest place →
      Route root purpose links dir (Path.up :: rest) place
  | last {links : Nat} {dir rest : List Text} {name : Text} (hname : IsStep name)
      (hrest : rest.all List.isEmpty)
      (hlink : ∀ target, root.node? (dir ++ [name]) = some (.link target) →
        purpose.followsLast (!rest.isEmpty) = false) :
      Route root purpose links dir (name :: rest) (.slot dir name (!rest.isEmpty))
  | into {links : Nat} {dir rest : List Text} {name : Text} {place : Place} (hname : IsStep name)
      (hrest : rest.all List.isEmpty = false) (hshort : isLongName name = false)
      (hfolder : root.node? (dir ++ [name]) = some .folder) :
      Route root purpose links (dir ++ [name]) rest place →
      Route root purpose links dir (name :: rest) place
  | link {links : Nat} {dir rest : List Text} {name target : Text} {place : Place}
      (hname : IsStep name) (hlink : root.node? (dir ++ [name]) = some (.link target))
      (hlast : rest.all List.isEmpty = true → purpose.followsLast (!rest.isEmpty) = true)
      (hshort : rest.all List.isEmpty = false → isLongName name = false) :
      Route root purpose links (if Path.isAbsolute target then [] else dir)
        (target.splitOn '/' ++ rest) place →
      Route root purpose (links + 1) dir (name :: rest) place

/-! ## Following is taking a route -/

theorem Trail.names_tail (t : Trail) : names t.tail = (names t).dropLast := by
  cases t with
  | nil => rfl
  | cons p t =>
    obtain ⟨name, inside⟩ := p
    rw [List.tail_cons, names_cons, List.dropLast_concat]

theorem Trail.find?_folder_eq {root : Folder} {t : Trail} (h : t.Leads root) (name : Text) :
    ((t.folder root).find? name).map Entry.node = root.node? (t.names ++ [name]) := by
  rw [← Folder.node?_singleton, Folder.node?, Folder.node?, Trail.get?_names_append h]

theorem Trail.names_start (t : Trail) (target : Text) :
    names (if Path.isAbsolute target then [] else t) =
      if Path.isAbsolute target then [] else names t := by
  split <;> rfl

variable {root root' : Folder} {purpose : Purpose} {links : Nat} {dir names : List Text}
  {place : Place} {trail : Trail}

theorem Trail.leads_start {t : Trail} (h : t.Leads root) (target : Text) :
    Leads root (if Path.isAbsolute target then [] else t) := by
  split
  · trivial
  · exact h

theorem Trail.find?_eq_link_iff {t : Trail} (h : t.Leads root) {name target : Text} :
    (t.folder root).find? name = some (.link target) ↔
      root.node? (t.names ++ [name]) = some (.link target) := by
  rw [← Trail.find?_folder_eq h, Option.map_eq_some_iff]
  constructor
  · intro hfound
    exact ⟨_, hfound, rfl⟩
  · rintro ⟨e, hfound, he⟩
    cases e with
    | link other => cases he; exact hfound
    | file _ => cases he
    | folder _ => cases he

/-- What goes on behind a link when some links are still allowed. -/
def Folder.onward (root : Folder) (purpose : Purpose) : Nat → Trail → List Text → Except Refusal Place
  | 0 => fun _ _ => .error .tooManyLinks
  | links + 1 => root.follow purpose links

theorem Folder.follow_eq (root : Folder) (purpose : Purpose) (links : Nat) :
    root.follow purpose links = root.followNames purpose (root.onward purpose links) := by
  cases links <;> rfl

theorem route_of_followNames {viaLink : Trail → List Text → Except Refusal Place}
    (hlinks : ∀ {t : Trail} {ns : List Text}, t.Leads root → viaLink t ns = .ok place →
      ∃ fewer, links = fewer + 1 ∧ Route root purpose fewer t.names ns place)
    (htrail : trail.Leads root) (h : root.followNames purpose viaLink trail names = .ok place) :
    Route root purpose links trail.names names place := by
  induction names generalizing trail with
  | nil => cases h; exact .stay
  | cons name rest ih =>
    have hnode := Trail.find?_folder_eq htrail name
    -- behind a link the names of its target come first, from the trail it stands on or the root
    have honward : ∀ target, (trail.folder root).find? name = some (.link target) → IsStep name →
        (rest.all List.isEmpty = true → purpose.followsLast (!rest.isEmpty) = true) →
        (rest.all List.isEmpty = false → isLongName name = false) →
        viaLink (if Path.isAbsolute target then [] else trail) (target.splitOn '/' ++ rest) =
          .ok place → Route root purpose links trail.names (name :: rest) place := by
      intro target hfound hstep hlast hshort hvia
      obtain ⟨fewer, rfl, hroute⟩ := hlinks (Trail.leads_start htrail target) hvia
      rw [Trail.names_start] at hroute
      exact .link hstep ((Trail.find?_eq_link_iff htrail).mp hfound) hlast hshort hroute
    rw [Folder.followNames] at h
    split at h
    · rename_i hskip
      exact .skip hskip (ih htrail h)
    · rename_i hskip
      split at h
      · rename_i hup
        subst hup
        have hroute := ih (Trail.leads_tail htrail) h
        rw [Trail.names_tail] at hroute
        exact .up hroute
      · rename_i hup
        have hstep : IsStep name := ⟨fun h => hskip (.inl h), fun h => hskip (.inr h), hup⟩
        split at h
        · rename_i hrest
          split at h
          · rename_i target hfound
            dsimp only at h
            split at h
            · rename_i hfollows
              exact honward target hfound hstep (fun _ => hfollows) (by simp [hrest]) h
            · rename_i hfollows
              cases h
              exact .last hstep hrest fun _ _ => by simpa using hfollows
          · rename_i hnot
            cases h
            refine .last hstep hrest ?_
            intro target hlink
            exact (hnot target ((Trail.find?_eq_link_iff htrail).mpr hlink)).elim
        · rename_i hrest
          rw [Bool.not_eq_true] at hrest
          split at h
          · cases h
          · rename_i hshort
            rw [Bool.not_eq_true] at hshort
            split at h
            · cases h
            · cases h
            · rename_i inside hfound
              have hroute := @ih ((name, inside) :: trail) ⟨hfound, htrail⟩ h
              rw [Trail.names_cons] at hroute
              rw [hfound] at hnode
              exact .into hstep hrest hshort hnode.symm hroute
            · rename_i target hfound
              exact honward target hfound hstep (by simp [hrest]) (fun _ => hshort) h

theorem route_of_follow (htrail : trail.Leads root)
    (h : root.follow purpose links trail names = .ok place) :
    Route root purpose links trail.names names place := by
  induction links generalizing trail names with
  | zero =>
    refine route_of_followNames ?_ htrail h
    intro t ns _ hvia
    cases hvia
  | succ links ih =>
    refine route_of_followNames ?_ htrail h
    intro t ns ht hvia
    exact ⟨links, rfl, ih ht hvia⟩

theorem follow_of_route (h : Route root purpose links dir names place) (htrail : trail.Leads root)
    (hdir : trail.names = dir) : root.follow purpose links trail names = .ok place := by
  induction h generalizing trail with
  | stay => rw [Folder.follow_eq, Folder.followNames, hdir]
  | skip hname _ ih =>
    rw [Folder.follow_eq, Folder.followNames, if_pos hname, ← Folder.follow_eq]
    exact ih htrail hdir
  | up _ ih =>
    rw [Folder.follow_eq, Folder.followNames, if_neg (by decide), if_pos rfl, ← Folder.follow_eq]
    refine ih (Trail.leads_tail htrail) ?_
    rw [Trail.names_tail, hdir]
  | @last links dir rest name hname hrest hlink =>
    rw [Folder.follow_eq, Folder.followNames, if_neg (by simp [hname.ne_nil, hname.ne_here]),
      if_neg hname.ne_up, if_pos hrest, hdir]
    split
    · rename_i target hfound
      rw [Trail.find?_eq_link_iff htrail, hdir] at hfound
      rw [if_neg (by simp [hlink target hfound])]
    · rfl
  | @into links dir rest name place hname hrest hshort hfolder _ ih =>
    rw [Folder.follow_eq, Folder.followNames, if_neg (by simp [hname.ne_nil, hname.ne_here]),
      if_neg hname.ne_up, if_neg (by simp [hrest]), if_neg (by simp [hshort]), ← Folder.follow_eq]
    rw [← hdir, ← Trail.find?_folder_eq htrail, Option.map_eq_some_iff] at hfolder
    obtain ⟨e, hfound, he⟩ := hfolder
    obtain ⟨inside, rfl⟩ := Entry.node_eq_folder_iff.mp he
    rw [hfound]
    exact @ih ((name, inside) :: trail) ⟨hfound, htrail⟩ (by rw [Trail.names_cons, hdir])
  | @link links dir rest name target place hname hlink hlast hshort _ ih =>
    rw [← hdir, ← Trail.find?_eq_link_iff htrail] at hlink
    have honward := ih (Trail.leads_start htrail target) (by rw [Trail.names_start, hdir])
    rw [Folder.follow, Folder.followNames, if_neg (by simp [hname.ne_nil, hname.ne_here]),
      if_neg hname.ne_up]
    by_cases hrest : rest.all List.isEmpty = true
    · rw [if_pos hrest, hlink]
      simp only [hlast hrest, if_true, honward]
    · rw [Bool.not_eq_true] at hrest
      rw [if_neg (by simp [hrest]), if_neg (by simp [hshort hrest]), hlink]
      exact honward

/-- **A path is followed to where a route leads.** -/
theorem follow_eq_ok_iff_route (htrail : trail.Leads root) :
    root.follow purpose links trail names = .ok place ↔
      Route root purpose links trail.names names place :=
  ⟨route_of_follow htrail, fun h => follow_of_route h htrail rfl⟩

/-- Following names never comes upon something that is in the way. -/
theorem Folder.followNames_ne_alreadyExists {root : Folder} {purpose : Purpose}
    {viaLink : Trail → List Text → Except Refusal Place}
    (hlinks : ∀ trail names, viaLink trail names ≠ .error .alreadyExists) (trail : Trail)
    (names : List Text) : root.followNames purpose viaLink trail names ≠ .error .alreadyExists := by
  induction names generalizing trail with
  | nil => simp [followNames]
  | cons name rest ih =>
    rw [followNames]
    dsimp only
    split
    · exact ih trail
    · split
      · exact ih trail.tail
      · split
        · split
          · split
            · exact hlinks _ _
            · simp
          · simp
        · split
          · simp
          · split
            · simp
            · simp
            · exact ih _
            · exact hlinks _ _

theorem Folder.follow_ne_alreadyExists (root : Folder) (purpose : Purpose) (links : Nat)
    (trail : Trail) (names : List Text) :
    root.follow purpose links trail names ≠ .error .alreadyExists := by
  induction links generalizing trail names with
  | zero => exact followNames_ne_alreadyExists (by simp) trail names
  | succ links ih => exact followNames_ne_alreadyExists ih trail names

/-! ## What a route does -/

/-- The parts of a path that are not empty. -/
def solidParts (parts : List Text) : List Text := parts.filter fun part => !part.isEmpty

@[simp] theorem solidParts_nil : solidParts [] = [] := rfl

@[simp] theorem solidParts_cons_nil (parts : List Text) :
    solidParts ([] :: parts) = solidParts parts := rfl

theorem solidParts_cons {part : Text} (h : part ≠ []) (parts : List Text) :
    solidParts (part :: parts) = part :: solidParts parts :=
  List.filter_cons_of_pos (by simpa using h)

@[simp] theorem solidParts_append (parts more : List Text) :
    solidParts (parts ++ more) = solidParts parts ++ solidParts more :=
  List.filter_append _ _

theorem solidParts_eq_nil_iff {parts : List Text} : solidParts parts = [] ↔ parts.all List.isEmpty := by
  simp [solidParts, List.filter_eq_nil_iff]

/-- Parts that are not all empty start with one that is not, behind some that are. -/
theorem exists_of_solidParts_eq_cons {part : Text} {parts more : List Text}
    (h : solidParts parts = part :: more) :
    ∃ skipped rest, parts = skipped ++ part :: rest ∧ skipped.all List.isEmpty ∧
      solidParts rest = more := by
  obtain ⟨skipped, rest, rfl, hskipped, -, hrest⟩ := List.filter_eq_cons_iff.mp h
  exact ⟨skipped, rest, rfl, by simpa using hskipped, hrest⟩

/-- Whether some names climb out of a folder when they are gone through from as many folders below it
as given. -/
def Climbs : Nat → List Text → Prop
  | _, [] => False
  | depth, name :: rest =>
    if name = [] ∨ name = Path.here then Climbs depth rest
    else if name = Path.up then depth = 0 ∨ Climbs (depth - 1) rest
    else Climbs (depth + 1) rest

instance decidableClimbs : (depth : Nat) → (names : List Text) → Decidable (Climbs depth names)
  | _, [] => inferInstanceAs (Decidable False)
  | depth, name :: rest =>
    have := decidableClimbs depth rest
    have := decidableClimbs (depth - 1) rest
    have := decidableClimbs (depth + 1) rest
    inferInstanceAs (Decidable (if name = [] ∨ name = Path.here then Climbs depth rest
      else if name = Path.up then depth = 0 ∨ Climbs (depth - 1) rest else Climbs (depth + 1) rest))

section Climbs

variable {depth : Nat} {name : Text} {rest : List Text}

theorem climbs_skip (h : name = [] ∨ name = Path.here) :
    Climbs depth (name :: rest) ↔ Climbs depth rest := by
  rw [Climbs, if_pos h]

theorem climbs_step (h : IsStep name) : Climbs depth (name :: rest) ↔ Climbs (depth + 1) rest := by
  rw [Climbs, if_neg (by simp [h.ne_nil, h.ne_here]), if_neg h.ne_up]

theorem climbs_up : Climbs depth (Path.up :: rest) ↔ depth = 0 ∨ Climbs (depth - 1) rest := by
  rw [Climbs, if_neg (by decide), if_pos rfl]

/-- Empty names change nothing. -/
theorem climbs_solidParts (depth : Nat) (names : List Text) :
    Climbs depth (solidParts names) ↔ Climbs depth names := by
  induction names generalizing depth with
  | nil => rfl
  | cons name rest ih =>
    by_cases hnil : name = []
    · subst hnil
      rw [solidParts_cons_nil, ih, climbs_skip (.inl rfl)]
    · rw [solidParts_cons hnil, Climbs, Climbs]
      split
      · exact ih depth
      · split
        · rw [ih]
        · exact ih (depth + 1)

/-- Names that lead on do not climb. -/
theorem not_climbs_of_steps {names : List Text} (h : ∀ name ∈ names, name ≠ Path.up) (depth : Nat) :
    ¬ Climbs depth names := by
  induction names generalizing depth with
  | nil => exact id
  | cons name rest ih =>
    have hrest := ih fun n hn => h n (List.mem_cons_of_mem _ hn)
    rw [Climbs, if_neg (h name List.mem_cons_self)]
    split
    · exact hrest depth
    · exact hrest (depth + 1)

end Climbs

namespace Route

/-- A route ends in a folder, or at a name in one. -/
theorem base_folder (h : Route root purpose links dir names place)
    (hdir : root.node? dir = some .folder) : root.node? place.base = some .folder := by
  induction h with
  | stay => exact hdir
  | skip _ _ ih => exact ih hdir
  | up _ ih => exact ih (Folder.node?_dropLast hdir)
  | last _ _ _ => exact hdir
  | into _ _ _ hfolder _ ih => exact ih hfolder
  | link _ _ _ _ _ ih =>
    apply ih
    split
    · rfl
    · exact hdir

/-- More folders and files do no harm to a route, as long as the links are the same. -/
theorem mono (hfolder : ∀ q, root.node? q = some .folder → root'.node? q = some .folder)
    (hlinks : ∀ q target, root'.node? q = some (.link target) ↔ root.node? q = some (.link target))
    (h : Route root purpose links dir names place) : Route root' purpose links dir names place := by
  induction h with
  | stay => exact .stay
  | skip hname _ ih => exact .skip hname ih
  | up _ ih => exact .up ih
  | last hname hrest hlink => exact .last hname hrest fun target ht => hlink target ((hlinks _ _).mp ht)
  | into hname hrest hshort hinto _ ih => exact .into hname hrest hshort (hfolder _ hinto) ih
  | link hname hlink hlast hshort _ ih =>
    exact .link hname ((hlinks _ _).mpr hlink) hlast hshort ih

/-- A route that does not end at a link is one for looking, whatever else it was taken for. -/
theorem look (h : Route root purpose links dir names place)
    (hlink : ∀ target, root.node? place.names ≠ some (.link target)) :
    Route root .look links dir names place := by
  induction h with
  | stay => exact .stay
  | skip hname _ ih => exact .skip hname (ih hlink)
  | up _ ih => exact .up (ih hlink)
  | last hname hrest _ => exact .last hname hrest fun target ht => (hlink target ht).elim
  | into hname hrest hshort hfolder _ ih => exact .into hname hrest hshort hfolder (ih hlink)
  | link hname htarget _ hshort _ ih => exact .link hname htarget (fun _ => rfl) hshort (ih hlink)

/-- A route that ends at a link was not to follow it. -/
theorem followsLast_of_link {dir' : List Text} {name target : Text} {slash : Bool}
    (h : Route root purpose links dir names place) (hplace : place = .slot dir' name slash)
    (hlink : root.node? (dir' ++ [name]) = some (.link target)) :
    purpose.followsLast slash = false := by
  induction h with
  | stay => cases hplace
  | skip _ _ ih | up _ ih | into _ _ _ _ _ ih | link _ _ _ _ _ ih => exact ih hplace
  | last _ _ hnot =>
    cases hplace
    exact hnot target hlink

/-- Names along which a route ends at a name, without a slash behind it, end in one that leads on. -/
theorem getLast?_isStep {dir' : List Text} {name : Text}
    (h : Route root purpose links dir names place) (hplace : place = .slot dir' name false) :
    ∃ n, names.getLast? = some n ∧ IsStep n := by
  have hcons : ∀ (first : Text) {rest : List Text}, (∃ n, rest.getLast? = some n ∧ IsStep n) →
      ∃ n, (first :: rest).getLast? = some n ∧ IsStep n := by
    rintro first rest ⟨n, hn, hstep⟩
    exact ⟨n, by rw [List.getLast?_cons, hn]; rfl, hstep⟩
  induction h with
  | stay => cases hplace
  | skip _ _ ih | up _ ih | into _ _ _ _ _ ih => exact hcons _ (ih hplace)
  | @last links dir rest n hname _ _ =>
    have hrest : rest = [] := by simpa using (Place.slot.inj hplace).2.2
    exact ⟨n, by rw [hrest, List.getLast?_singleton], hname⟩
  | @link links dir rest n target place hname _ _ _ _ ih =>
    by_cases hrest : rest = []
    · exact ⟨n, by rw [hrest, List.getLast?_singleton], hname⟩
    · obtain ⟨last, hlast, hstep⟩ := ih hplace
      rw [List.getLast?_append_of_ne_nil _ hrest] at hlast
      exact hcons n ⟨last, hlast, hstep⟩

/-- The name that a route ends at is one that it was asked to go along, or a link led it there. -/
theorem slot_name {P : Text → Prop} (h : Route root purpose links dir names place)
    (hnames : ∀ n ∈ names, P n)
    (hlinks : ∀ q target, root.node? q = some (.link target) → ∀ n ∈ target.splitOn '/', P n)
    {dir' : List Text} {name : Text} {slash : Bool} (hplace : place = .slot dir' name slash) :
    IsStep name ∧ P name := by
  induction h with
  | stay => cases hplace
  | skip _ _ ih | up _ ih | into _ _ _ _ _ ih =>
    exact ih (fun n hn => hnames n (List.mem_cons_of_mem _ hn)) hplace
  | last hname _ _ =>
    cases hplace
    exact ⟨hname, hnames _ List.mem_cons_self⟩
  | link _ hlink _ _ _ ih =>
    refine ih ?_ hplace
    intro n hn
    rcases List.mem_append.mp hn with hn | hn
    · exact hlinks _ _ hlink n hn
    · exact hnames n (List.mem_cons_of_mem _ hn)

theorem eq_folder_of_empty (h : Route root purpose links dir names place)
    (hnames : names.all List.isEmpty) : place = .folder dir := by
  induction h with
  | stay => rfl
  | skip _ _ ih =>
    rw [List.all_cons, Bool.and_eq_true] at hnames
    exact ih hnames.2
  | up _ _ => simp [Path.up] at hnames
  | last hname _ _ | into hname _ _ _ _ _ | link hname _ _ _ _ _ => simp [hname.ne_nil] at hnames

theorem skip_all {skipped : List Text} (hskipped : skipped.all List.isEmpty)
    (h : Route root purpose links dir names place) :
    Route root purpose links dir (skipped ++ names) place := by
  induction skipped with
  | nil => exact h
  | cons name rest ih =>
    rw [List.all_cons, Bool.and_eq_true, List.isEmpty_iff] at hskipped
    exact .skip (.inl hskipped.1) (ih hskipped.2)

/-- A route goes through the end of another one, along names that come first, and on from the folder
there. -/
def Through (root : Folder) (purpose : Purpose) (links : Nat) (dir front more : List Text)
    (place : Place) : Prop :=
  ∃ through fewer rest, Route root .look links dir front through ∧
    root.node? through.names = some .folder ∧ solidParts rest = more ∧
    Route root purpose fewer through.names rest place

theorem through_of_empty {front : List Text} (hfront : front.all List.isEmpty)
    (hdir : root.node? dir = some .folder) (h : Route root purpose links dir names place) :
    Through root purpose links dir front (solidParts names) place := by
  refine ⟨.folder dir, links, names, ?_, hdir, rfl, h⟩
  have hroute : Route root .look links dir (front ++ []) (.folder dir) := skip_all hfront .stay
  rwa [List.append_nil] at hroute

/-- To go through the end of a route along some names, it is enough to do so behind the first name. -/
theorem through_of_cons {name : Text} {rest front more : List Text} (hname : name ≠ [])
    (hdir : root.node? dir = some .folder) (h : Route root purpose links dir (name :: rest) place)
    (hnames : solidParts (name :: rest) = solidParts front ++ more)
    (hstep : ∀ behind, solidParts rest = solidParts behind ++ more →
      Through root purpose links dir (name :: behind) more place) :
    Through root purpose links dir front more place := by
  cases hfront : solidParts front with
  | nil =>
    rw [hfront, List.nil_append] at hnames
    rw [← hnames]
    exact through_of_empty (solidParts_eq_nil_iff.mp hfront) hdir h
  | cons first front' =>
    rw [hfront, solidParts_cons hname, List.cons_append, List.cons.injEq] at hnames
    obtain ⟨skipped, behind, rfl, hskipped, rfl⟩ := exists_of_solidParts_eq_cons hfront
    obtain ⟨place', fewer, left, hfirst, hrest⟩ := hstep behind hnames.2
    exact ⟨place', fewer, left, skip_all hskipped (hnames.1 ▸ hfirst), hrest⟩

/-- **A route along more names goes through the end of a route along the first of them**, whatever
empty names stand between. -/
theorem through (h : Route root purpose links dir names place) (hdir : root.node? dir = some .folder)
    {front more : List Text} (hnames : solidParts names = solidParts front ++ more)
    (hmore : more ≠ []) : Through root purpose links dir front more place := by
  induction h generalizing front with
  | stay => simp_all
  | @skip links dir rest name place hname h ih =>
    by_cases hnil : name = []
    · subst hnil
      exact ih hdir hnames
    · refine through_of_cons hnil hdir (.skip hname h) hnames fun behind hbehind => ?_
      obtain ⟨place', fewer, left, hfirst, hrest⟩ := ih hdir hbehind
      exact ⟨place', fewer, left, .skip hname hfirst, hrest⟩
  | @up links dir rest place h ih =>
    refine through_of_cons (by decide) hdir (.up h) hnames fun behind hbehind => ?_
    obtain ⟨place', fewer, left, hfirst, hrest⟩ := ih (Folder.node?_dropLast hdir) hbehind
    exact ⟨place', fewer, left, .up hfirst, hrest⟩
  | @last links dir rest name hname hrest hlink =>
    refine through_of_cons hname.ne_nil hdir (.last hname hrest hlink) hnames fun behind hbehind => ?_
    rw [solidParts_eq_nil_iff.mpr hrest, List.nil_eq, List.append_eq_nil_iff] at hbehind
    exact (hmore hbehind.2).elim
  | @into links dir rest name place hname hrest hshort hfolder h ih =>
    refine through_of_cons hname.ne_nil hdir (.into hname hrest hshort hfolder h) hnames
      fun behind hbehind => ?_
    obtain ⟨place', fewer, left, hfirst, hthrough, hleft, hon⟩ := ih hfolder hbehind
    by_cases hempty : behind.all List.isEmpty = true
    · -- the folder is the end of the first route, which does not have to enter it
      rw [eq_folder_of_empty hfirst hempty] at hon
      refine ⟨.slot dir name (!behind.isEmpty), fewer, left, .last hname hempty ?_, hfolder, hleft, hon⟩
      intro target hlink
      rw [hfolder] at hlink
      cases hlink
    · rw [Bool.not_eq_true] at hempty
      exact ⟨place', fewer, left, .into hname hempty hshort hfolder hfirst, hthrough, hleft, hon⟩
  | @link links dir rest name target place hname hlink hlast hshort h ih =>
    refine through_of_cons hname.ne_nil hdir (.link hname hlink hlast hshort h) hnames
      fun behind hbehind => ?_
    have hrest : rest.all List.isEmpty = false := by
      rw [← Bool.not_eq_true, ← solidParts_eq_nil_iff, hbehind]
      simp [hmore]
    have htarget : solidParts (target.splitOn '/' ++ rest) =
        solidParts (target.splitOn '/' ++ behind) ++ more := by
      rw [solidParts_append, solidParts_append, hbehind, List.append_assoc]
    have hstart : root.node? (if Path.isAbsolute target then [] else dir) = some .folder := by
      split
      · rfl
      · exact hdir
    obtain ⟨place', fewer, left, hfirst, hleft⟩ := ih hstart htarget
    exact ⟨place', fewer, left, .link hname hlink (fun _ => rfl) (fun _ => hshort hrest) hfirst, hleft⟩

/-- **Where no link stands, a route that does not climb out of a folder stays below it.** -/
theorem stays_below (h : Route root purpose links dir names place) {top inner : List Text}
    (hdir : dir = top ++ inner)
    (hlinks : ∀ more target, root.node? (top ++ more) ≠ some (.link target))
    (hclimbs : ¬ Climbs inner.length names) {dir' : List Text} {name : Text} {slash : Bool}
    (hplace : place = .slot dir' name slash) :
    ∃ more, more ≠ [] ∧ dir' ++ [name] = top ++ more := by
  induction h generalizing inner with
  | stay => cases hplace
  | skip hname _ ih => exact ih hdir ((climbs_skip hname).not.mp hclimbs) hplace
  | up _ ih =>
    rw [climbs_up, not_or, List.length_eq_zero_iff] at hclimbs
    refine @ih inner.dropLast ?_ (List.length_dropLast ▸ hclimbs.2) hplace
    rw [hdir, List.dropLast_append_of_ne_nil hclimbs.1]
  | last _ _ _ =>
    cases hplace
    exact ⟨inner ++ [_], by simp, by rw [hdir, List.append_assoc]⟩
  | @into links dir rest n place hname _ _ _ _ ih =>
    refine @ih (inner ++ [n]) (by rw [hdir, List.append_assoc]) ?_ hplace
    rw [List.length_append]
    exact (climbs_step hname).not.mp hclimbs
  | link _ hlink _ _ _ _ =>
    rw [hdir, List.append_assoc] at hlink
    exact (hlinks _ _ hlink).elim

end Route

/-! ## Where a path leads -/

theorem Trail.names_of_along? {root : Folder} {t u : Trail} {names : List Text}
    (h : t.Leads root) (hu : t.along? root names = some u) :
    u.names = t.names ++ names ∧ root.node? u.names = some .folder := by
  induction names generalizing t with
  | nil =>
    cases hu
    have hget := Trail.get?_names_append h []
    rw [List.append_nil] at hget
    exact ⟨(List.append_nil _).symm, Folder.node?_eq_folder_iff.mpr ⟨_, hget⟩⟩
  | cons name rest ih =>
    rw [Trail.along?] at hu
    split at hu
    · rename_i inside hfound
      have hu' := @ih ((name, inside) :: t) ⟨hfound, h⟩ hu
      rwa [Trail.names_cons, List.append_assoc] at hu'
    · cases hu

theorem Trail.exists_along? {root : Folder} {t : Trail} {names : List Text} (h : t.Leads root)
    (hnames : root.node? (t.names ++ names) = some .folder) : ∃ u, t.along? root names = some u := by
  induction names generalizing t with
  | nil => exact ⟨t, rfl⟩
  | cons name rest ih =>
    rw [List.append_cons] at hnames
    have hfolder := Folder.node?_prefix_of_folder hnames
    rw [← Trail.find?_folder_eq h, Option.map_eq_some_iff] at hfolder
    obtain ⟨e, hfound, he⟩ := hfolder
    obtain ⟨inside, rfl⟩ := Entry.node_eq_folder_iff.mp he
    rw [Trail.along?, hfound]
    exact @ih ((name, inside) :: t) ⟨hfound, h⟩ (by rwa [Trail.names_cons])

namespace Disk

/-- The names that a path starts from: none from the root on, else those of the current folder. -/
def startNames (d : Disk) (path : Text) : List Text := if Path.isAbsolute path then [] else d.cwd

/-- A disk with names as they can be. -/
structure Named (d : Disk) : Prop where
  proper : d.root.Proper
  cwd : ∀ name ∈ d.cwd, IsName name

/-- A disk with names as they can be, also in the targets of links. -/
structure WellFormed (d : Disk) : Prop extends Named d where
  targets : ∀ q target, d.root.node? q = some (.link target) → '\x00' ∉ target

/-- A path leads to a place. -/
structure Routed (d : Disk) (purpose : Purpose) (path : Text) (place : Place) : Prop where
  ne_nil : path ≠ []
  short : isLongPath path = false
  start : d.root.node? (d.startNames path) = some .folder
  route : Route d.root purpose linkLimit (d.startNames path) (path.splitOn '/') place

variable {d d' : Disk} {path : Text}

/-! Disks with the same current folder start paths at the same names. -/

theorem cwdPath_congr (hcwd : d'.cwd = d.cwd) : d'.cwdPath = d.cwdPath := congrArg Path.ofNames hcwd

theorem startNames_congr (hcwd : d'.cwd = d.cwd) (path : Text) :
    d'.startNames path = d.startNames path := by
  rw [startNames, startNames, hcwd]

theorem names_of_start? {trail : Trail} (h : d.start? path = some trail) :
    trail.names = d.startNames path ∧ d.root.node? trail.names = some .folder := by
  unfold start? at h
  unfold startNames
  split at h
  · rename_i habs
    cases h
    rw [if_pos habs]
    exact ⟨rfl, rfl⟩
  · rename_i habs
    rw [if_neg habs]
    exact Trail.names_of_along? (t := []) trivial h

theorem exists_start? (h : d.root.node? (d.startNames path) = some .folder) :
    ∃ trail, d.start? path = some trail := by
  unfold startNames at h
  unfold start?
  split at h
  · rename_i habs
    exact ⟨[], if_pos habs⟩
  · rename_i habs
    rw [if_neg habs]
    exact Trail.exists_along? (t := []) trivial h

/-- **A path leads to a place exactly if there is a route to it.** -/
theorem locate_eq_ok_iff_routed : d.locate purpose path = .ok place ↔ d.Routed purpose path place := by
  unfold locate
  constructor
  · intro h
    split at h
    · cases h
    · rename_i hnil
      split at h
      · cases h
      · rename_i hshort
        split at h
        · cases h
        · rename_i trail hstart
          obtain ⟨hnames, hfolder⟩ := names_of_start? hstart
          rw [follow_eq_ok_iff_route (leads_of_start? hstart)] at h
          rw [hnames] at h hfolder
          exact ⟨hnil, by simpa using hshort, hfolder, h⟩
  · rintro ⟨hnil, hshort, hstart, hroute⟩
    obtain ⟨trail, htrail⟩ := exists_start? hstart
    rw [if_neg hnil, if_neg (by simp [hshort]), htrail]
    refine (follow_eq_ok_iff_route (leads_of_start? htrail)).mpr ?_
    rwa [(names_of_start? htrail).1]

namespace Routed

theorem base_folder (h : d.Routed purpose path place) : d.root.node? place.base = some .folder :=
  h.route.base_folder h.start

/-- A path that leads somewhere leads there still when there are more folders and files. -/
theorem mono (hcwd : d'.cwd = d.cwd)
    (hfolder : ∀ q, d.root.node? q = some .folder → d'.root.node? q = some .folder)
    (hlinks : ∀ q target,
      d'.root.node? q = some (.link target) ↔ d.root.node? q = some (.link target))
    (h : d.Routed purpose path place) : d'.Routed purpose path place := by
  have hstart := startNames_congr hcwd path
  refine ⟨h.ne_nil, h.short, ?_, ?_⟩
  · rw [hstart]
    exact hfolder _ h.start
  · rw [hstart]
    exact h.route.mono hfolder hlinks

/-- A path that does not end at a link is looked at where it leads. -/
theorem look (h : d.Routed purpose path place)
    (hlink : ∀ target, d.root.node? place.names ≠ some (.link target)) : d.Routed .look path place :=
  ⟨h.ne_nil, h.short, h.start, h.route.look hlink⟩

end Routed

end Disk

end LessonPages
