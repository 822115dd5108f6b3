import Mathlib.Data.List.Basic
import LessonPages.Disk.Basic

/-!
# A tree as a map

Every statement about what a disk holds is made through one view: what stands at the end of a list
of names, without what a folder holds in turn. Setting an entry changes this map at one place.

* `Folder.node?` — the view; `Folder.node?_set` — the one place.
* `Folder.induction_inside` — induction on the folders in a folder.
* `IsName`, `Folder.Proper` — names as a folder can hold them, each of them once.
* `Folder.Linkless` — no link is held anywhere.
-/

namespace LessonPages

/-- A name that leads on, neither empty nor a dot nor two of them. -/
structure IsStep (name : Text) : Prop where
  ne_nil : name ≠ []
  ne_here : name ≠ Path.here
  ne_up : name ≠ Path.up

/-- A name that an entry of a folder can have. -/
structure IsName (name : Text) : Prop extends IsStep name where
  no_slash : '/' ∉ name
  no_nul : '\x00' ∉ name
  short : isLongName name = false

instance decidableIsName (name : Text) : Decidable (IsName name) :=
  decidable_of_iff ((name ≠ [] ∧ name ≠ Path.here ∧ name ≠ Path.up) ∧
      '/' ∉ name ∧ '\x00' ∉ name ∧ isLongName name = false)
    ⟨fun ⟨⟨hnil, hhere, hup⟩, hslash, hnul, hshort⟩ => ⟨⟨hnil, hhere, hup⟩, hslash, hnul, hshort⟩,
      fun h => ⟨⟨h.ne_nil, h.ne_here, h.ne_up⟩, h.no_slash, h.no_nul, h.short⟩⟩

/-- What stands at a place. -/
inductive Node where
  | file (content : Utf8.Bytes)
  | link (target : Text)
  | folder
  deriving DecidableEq, Repr

/-- An entry without what a folder holds. -/
def Entry.node : Entry → Node
  | .file content => .file content
  | .link target => .link target
  | .folder _ => .folder

theorem Entry.node_eq_folder_iff {e : Entry} : e.node = .folder ↔ ∃ inside, e = .folder inside := by
  cases e <;> simp [Entry.node]

theorem Entry.node_eq_file_iff {e : Entry} {content : Utf8.Bytes} :
    e.node = .file content ↔ e = .file content := by
  cases e <;> simp [Entry.node]

namespace Folder

/-- What stands at the end of a list of names. -/
def node? (f : Folder) (names : List Text) : Option Node := (f.get? names).map Entry.node

/-! ## Walking the view -/

@[simp] theorem node?_nil (f : Folder) : f.node? [] = some .folder := rfl

theorem node?_singleton (f : Folder) (name : Text) :
    f.node? [name] = (f.find? name).map Entry.node := by
  rw [node?, get?]
  split <;> rename_i hfound <;> rw [hfound] <;> rfl

theorem node?_cons_of_folder {f inside : Folder} {name : Text}
    (h : f.find? name = some (.folder inside)) (rest : List Text) :
    f.node? (name :: rest) = inside.node? rest := by
  rw [node?, get?, h]
  rfl

/-- Nothing stands behind a name that is not a folder's. -/
theorem node?_cons_of_not_folder {f : Folder} {name : Text}
    (h : ∀ inside, f.find? name ≠ some (.folder inside)) {rest : List Text} (hrest : rest ≠ []) :
    f.node? (name :: rest) = none := by
  rw [node?, get?]
  split
  · rename_i inside hfound
    exact absurd hfound (h inside)
  · rw [if_neg hrest]
    rfl
  · rfl

theorem node?_eq_folder_iff {f : Folder} {names : List Text} :
    f.node? names = some .folder ↔ ∃ inside, f.get? names = some (.folder inside) := by
  rw [node?, Option.map_eq_some_iff]
  constructor
  · rintro ⟨e, hget, hnode⟩
    obtain ⟨inside, rfl⟩ := Entry.node_eq_folder_iff.mp hnode
    exact ⟨inside, hget⟩
  · rintro ⟨inside, hget⟩
    exact ⟨.folder inside, hget, rfl⟩

theorem node?_eq_file_iff {f : Folder} {names : List Text} {content : Utf8.Bytes} :
    f.node? names = some (.file content) ↔ f.get? names = some (.file content) := by
  rw [node?, Option.map_eq_some_iff]
  constructor
  · rintro ⟨e, hget, hnode⟩
    rwa [Entry.node_eq_file_iff.mp hnode] at hget
  · intro hget
    exact ⟨_, hget, rfl⟩

theorem find?_of_node?_cons {f : Folder} {name : Text} {rest : List Text} (hrest : rest ≠ [])
    (h : f.node? (name :: rest) ≠ none) : ∃ inside, f.find? name = some (.folder inside) := by
  by_contra hno
  simp only [not_exists] at hno
  exact h (node?_cons_of_not_folder hno hrest)

/-- The first of some names that lead to a folder leads to a folder. -/
theorem find?_of_get?_cons {f g : Folder} {name : Text} {rest : List Text}
    (h : f.get? (name :: rest) = some (.folder g)) :
    ∃ inside, f.find? name = some (.folder inside) ∧ inside.get? rest = some (.folder g) := by
  rw [get?] at h
  split at h
  · rename_i inside hfound
    exact ⟨inside, hfound, h⟩
  · rename_i hnot _
    split at h
    · cases h
      exact (hnot g rfl).elim
    · cases h
  · cases h

theorem get?_append {f g : Folder} {dir : List Text} (h : f.get? dir = some (.folder g))
    (rest : List Text) : f.get? (dir ++ rest) = g.get? rest := by
  induction dir generalizing f with
  | nil => cases h; rfl
  | cons name dir ih =>
    obtain ⟨inside, hfound, hinside⟩ := find?_of_get?_cons h
    rw [List.cons_append, get?, hfound]
    exact ih hinside

theorem node?_append {f g : Folder} {dir : List Text} (h : f.get? dir = some (.folder g))
    (rest : List Text) : f.node? (dir ++ rest) = g.node? rest := by
  rw [node?, get?_append h, node?]

/-- Whatever stands in something stands in a folder. -/
theorem node?_dir_of_append {f : Folder} {dir rest : List Text} (hrest : rest ≠ [])
    (h : f.node? (dir ++ rest) ≠ none) : f.node? dir = some .folder := by
  induction dir generalizing f with
  | nil => rfl
  | cons name dir ih =>
    obtain ⟨inside, hfound⟩ := find?_of_node?_cons (by simp [hrest]) h
    rw [List.cons_append, node?_cons_of_folder hfound] at h
    rw [node?_cons_of_folder hfound]
    exact ih h

/-- Whatever leads to a folder leads through folders. -/
theorem node?_prefix_of_folder {f : Folder} {dir rest : List Text}
    (h : f.node? (dir ++ rest) = some .folder) : f.node? dir = some .folder := by
  by_cases hrest : rest = []
  · subst hrest
    rwa [List.append_nil] at h
  · exact node?_dir_of_append hrest (by rw [h]; simp)

theorem node?_dropLast {f : Folder} {dir : List Text} (h : f.node? dir = some .folder) :
    f.node? dir.dropLast = some .folder := by
  obtain ⟨behind, hbehind⟩ := List.dropLast_prefix dir
  rw [← hbehind] at h
  exact node?_prefix_of_folder h

theorem node?_cons_congr {f g : Folder} {name : Text} (h : f.find? name = g.find? name)
    (rest : List Text) : f.node? (name :: rest) = g.node? (name :: rest) := by
  rw [node?, node?, get?, get?, h]

/-- Names lead to a folder if the first one does and the others lead on from there. -/
theorem node?_cons_eq_folder_iff {f : Folder} {name : Text} {more : List Text} :
    f.node? (name :: more) = some .folder ↔
      ∃ inside, f.find? name = some (.folder inside) ∧ inside.node? more = some .folder := by
  constructor
  · intro h
    obtain ⟨below, hbelow⟩ := node?_eq_folder_iff.mp h
    obtain ⟨inside, hfound, -⟩ := find?_of_get?_cons hbelow
    rw [node?_cons_of_folder hfound] at h
    exact ⟨inside, hfound, h⟩
  · rintro ⟨inside, hfound, h⟩
    rwa [node?_cons_of_folder hfound]

/-- What holds of a folder when it holds of the folders in it holds of every folder. -/
theorem induction_inside {P : Folder → Prop}
    (h : ∀ f, (∀ name inside, f.find? name = some (.folder inside) → P inside) → P f) (f : Folder) :
    P f := by
  refine h f ?_
  induction f with
  | empty => rintro name inside ⟨⟩
  | file n _ rest ih | link n _ rest ih =>
    intro name inside hfound
    rw [find?] at hfound
    split at hfound
    · cases hfound
    · exact ih name inside hfound
  | folder n other rest ihOther ih =>
    intro name inside hfound
    rw [find?] at hfound
    split at hfound
    · cases hfound
      exact h other ihOther
    · exact ih name inside hfound

/-! ## Setting an entry -/

/-- An entry that holds nothing. -/
inductive Leaf : Entry → Prop where
  | file (content : Utf8.Bytes) : Leaf (.file content)
  | empty : Leaf (.folder .empty)

theorem set_cons_of_folder {f inside : Folder} {name : Text}
    (h : f.find? name = some (.folder inside)) (e : Entry) {rest : List Text} (hrest : rest ≠ []) :
    f.set e (name :: rest) = f.put name (.folder (inside.set e rest)) := by
  cases rest with
  | nil => exact absurd rfl hrest
  | cons _ _ => simp only [set, h]

theorem node?_put_ne {f : Folder} {name other : Text} (h : other ≠ name) (e : Entry)
    (rest : List Text) : (f.put name e).node? (other :: rest) = f.node? (other :: rest) :=
  node?_cons_congr (find?_put_ne h e f) rest

/-- Nothing stands in an entry that holds nothing. -/
theorem node?_put_leaf {e : Entry} (hleaf : Leaf e) (f : Folder) (name : Text) {rest : List Text}
    (hrest : rest ≠ []) : (f.put name e).node? (name :: rest) = none := by
  have hfound := find?_put_self name e f
  cases hleaf with
  | file content =>
    refine node?_cons_of_not_folder ?_ hrest
    intro inside hinside
    rw [hfound] at hinside
    cases hinside
  | empty =>
    rw [node?_cons_of_folder hfound]
    cases rest with
    | nil => exact absurd rfl hrest
    | cons next rest => rfl

/-- **Setting an entry changes the view at its own place only.** -/
theorem node?_set {f : Folder} {dir : List Text} {name : Text} {e : Entry} (hleaf : Leaf e)
    (hdir : f.node? dir = some .folder) (hplace : f.node? (dir ++ [name]) ≠ some .folder)
    (q : List Text) :
    (f.set e (dir ++ [name])).node? q = if q = dir ++ [name] then some e.node else f.node? q := by
  induction dir generalizing f q with
  | nil =>
    cases q with
    | nil => rfl
    | cons other rest =>
      rw [List.nil_append, set]
      by_cases hname : other = name
      · subst hname
        -- behind the name nothing stands, neither in what was there nor in what is put there
        by_cases hrest : rest = []
        · subst hrest
          rw [if_pos rfl, node?_singleton, find?_put_self]
          rfl
        · have hnot : ∀ inside, f.find? other ≠ some (.folder inside) := by
            intro inside hfound
            apply hplace
            rw [List.nil_append, node?_singleton, hfound]
            rfl
          rw [if_neg (by simp [hrest]), node?_put_leaf hleaf f other hrest,
            node?_cons_of_not_folder hnot hrest]
      · rw [if_neg (by simp [hname]), node?_put_ne hname]
  | cons first dir ih =>
    obtain ⟨g, hget⟩ := node?_eq_folder_iff.mp hdir
    obtain ⟨inside, hfound, -⟩ := find?_of_get?_cons hget
    rw [node?_cons_of_folder hfound] at hdir
    rw [List.cons_append, node?_cons_of_folder hfound] at hplace
    rw [List.cons_append, set_cons_of_folder hfound e (by simp)]
    cases q with
    | nil => rfl
    | cons other rest =>
      by_cases hname : other = first
      · subst hname
        rw [node?_cons_of_folder (find?_put_self other _ f), node?_cons_of_folder hfound,
          ih hdir hplace rest]
        simp only [List.cons.injEq, true_and]
      · rw [node?_put_ne hname, if_neg (by simp [hname])]

/-! ## Trees as they can be -/

/-- The names of a folder's own entries. -/
def names : Folder → List Text
  | .empty => []
  | .file name _ rest | .link name _ rest | .folder name _ rest => name :: rest.names

/-- Every entry, at any depth, has a name that a disk can hold, and no two entries of one folder share
theirs. -/
def Proper : Folder → Prop
  | .empty => True
  | .file name _ rest | .link name _ rest => IsName name ∧ name ∉ rest.names ∧ rest.Proper
  | .folder name inside rest => IsName name ∧ name ∉ rest.names ∧ rest.Proper ∧ inside.Proper

/-- No entry, at any depth, is a link. -/
def Linkless : Folder → Prop
  | .empty => True
  | .file _ _ rest => rest.Linkless
  | .link _ _ _ => False
  | .folder _ inside rest => inside.Linkless ∧ rest.Linkless

instance decidableProper : (f : Folder) → Decidable f.Proper
  | .empty => inferInstanceAs (Decidable True)
  | .file name _ rest | .link name _ rest =>
    have := decidableProper rest
    inferInstanceAs (Decidable (IsName name ∧ name ∉ rest.names ∧ rest.Proper))
  | .folder name inside rest =>
    have := decidableProper rest
    have := decidableProper inside
    inferInstanceAs (Decidable (IsName name ∧ name ∉ rest.names ∧ rest.Proper ∧ inside.Proper))

instance decidableLinkless : (f : Folder) → Decidable f.Linkless
  | .empty => inferInstanceAs (Decidable True)
  | .file _ _ rest => decidableLinkless rest
  | .link _ _ _ => inferInstanceAs (Decidable False)
  | .folder _ inside rest =>
    have := decidableLinkless inside
    have := decidableLinkless rest
    inferInstanceAs (Decidable (inside.Linkless ∧ rest.Linkless))

theorem mem_names_cons {name other : Text} {e : Entry} {rest : Folder} :
    other ∈ (cons name e rest).names ↔ other = name ∨ other ∈ rest.names := by
  cases e <;> simp [cons, names]

theorem mem_names_put {name other : Text} {e : Entry} {f : Folder} :
    other ∈ (f.put name e).names ↔ other = name ∨ other ∈ f.names := by
  induction f with
  | empty => simp [put, mem_names_cons, names]
  | file n _ rest ih | link n _ rest ih | folder n _ rest _ ih =>
    rw [put]
    split
    · rename_i hname
      subst hname
      simp [mem_names_cons, names]
    · simp only [names, List.mem_cons, ih]
      tauto

theorem mem_names_of_find? {f : Folder} {name : Text} {e : Entry} (h : f.find? name = some e) :
    name ∈ f.names := by
  induction f with
  | empty => cases h
  | file n _ rest ih | link n _ rest ih | folder n _ rest _ ih =>
    rw [find?] at h
    split at h
    · rename_i hname
      simp [names, hname]
    · exact List.mem_cons_of_mem _ (ih h)

theorem Proper.nodup_names {f : Folder} (h : f.Proper) : f.names.Nodup := by
  induction f with
  | empty => exact .nil
  | file n _ rest ih | link n _ rest ih => exact List.nodup_cons.mpr ⟨h.2.1, ih h.2.2⟩
  | folder n _ rest _ ih => exact List.nodup_cons.mpr ⟨h.2.1, ih h.2.2.1⟩

/-- An entry that is no folder leaves the folders as they are. -/
theorem find?_cons_leaf {name other : Text} {e : Entry} {rest inside : Folder} (he : e.node ≠ .folder)
    (hnew : name ∉ rest.names) : (cons name e rest).find? other = some (.folder inside) ↔
      rest.find? other = some (.folder inside) := by
  rw [find?_cons]
  split
  · rename_i heq
    subst heq
    constructor
    · intro hfolder
      exact (he (Entry.node_eq_folder_iff.mpr ⟨inside, Option.some.inj hfolder⟩)).elim
    · intro hfound
      exact (hnew (mem_names_of_find? hfound)).elim
  · rfl

theorem node?_cons_leaf {name : Text} {e : Entry} {rest : Folder} (he : e.node ≠ .folder)
    (hnew : name ∉ rest.names) (names : List Text) :
    (cons name e rest).node? names = some .folder ↔ rest.node? names = some .folder := by
  cases names with
  | nil => simp
  | cons other more => simp only [node?_cons_eq_folder_iff, find?_cons_leaf he hnew]

theorem Proper.isName {f : Folder} (h : f.Proper) {name : Text} (hname : name ∈ f.names) :
    IsName name := by
  induction f with
  | empty => cases hname
  | file n _ rest ih | link n _ rest ih =>
    rcases List.mem_cons.mp hname with rfl | hrest
    · exact h.1
    · exact ih h.2.2 hrest
  | folder n _ rest _ ih =>
    rcases List.mem_cons.mp hname with rfl | hrest
    · exact h.1
    · exact ih h.2.2.1 hrest

theorem Proper.find? {f inside : Folder} (h : f.Proper) {name : Text}
    (hfound : f.find? name = some (.folder inside)) : inside.Proper := by
  induction f with
  | empty => cases hfound
  | file n _ rest ih | link n _ rest ih =>
    rw [Folder.find?] at hfound
    split at hfound
    · cases hfound
    · exact ih h.2.2 hfound
  | folder n _ rest _ ih =>
    rw [Folder.find?] at hfound
    split at hfound
    · cases hfound
      exact h.2.2.2
    · exact ih h.2.2.1 hfound

theorem Proper.get? {f g : Folder} (h : f.Proper) {names : List Text}
    (hget : f.get? names = some (.folder g)) : g.Proper := by
  induction names generalizing f with
  | nil => cases hget; exact h
  | cons name rest ih =>
    obtain ⟨inside, hfound, hinside⟩ := find?_of_get?_cons hget
    exact ih (h.find? hfound) hinside

theorem Proper.isName_of_node? {f : Folder} (h : f.Proper) {names : List Text}
    (hnode : f.node? names ≠ none) : ∀ name ∈ names, IsName name := by
  induction names generalizing f with
  | nil =>
    intro name hname
    cases hname
  | cons first rest ih =>
    obtain ⟨e, he⟩ : ∃ e, f.find? first = some e := by
      by_contra hno
      have hnone : f.find? first = none := by
        rw [Option.eq_none_iff_forall_not_mem]
        intro e he
        exact hno ⟨e, he⟩
      apply hnode
      rw [node?, Folder.get?, hnone]
      rfl
    intro name hname
    rcases List.mem_cons.mp hname with rfl | hname
    · exact h.isName (mem_names_of_find? he)
    · obtain ⟨inside, hfound⟩ := find?_of_node?_cons (List.ne_nil_of_mem hname) hnode
      rw [node?_cons_of_folder hfound] at hnode
      exact ih (h.find? hfound) hnode name hname

theorem Linkless.find? {f inside : Folder} (h : f.Linkless) {name : Text}
    (hfound : f.find? name = some (.folder inside)) : inside.Linkless := by
  induction f with
  | empty => cases hfound
  | file n _ rest ih =>
    rw [Folder.find?] at hfound
    split at hfound
    · cases hfound
    · exact ih h hfound
  | link n _ rest ih => exact h.elim
  | folder n _ rest _ ih =>
    rw [Folder.find?] at hfound
    split at hfound
    · cases hfound
      exact h.1
    · exact ih h.2 hfound

theorem Linkless.find?_ne_link {f : Folder} (h : f.Linkless) (name target : Text) :
    f.find? name ≠ some (.link target) := by
  induction f with
  | empty => simp [Folder.find?]
  | file n _ rest ih =>
    rw [Folder.find?]
    split
    · simp
    · exact ih h
  | link n _ rest ih => exact h.elim
  | folder n _ rest _ ih =>
    rw [Folder.find?]
    split
    · simp
    · exact ih h.2

theorem Linkless.get? {f g : Folder} (h : f.Linkless) {names : List Text}
    (hget : f.get? names = some (.folder g)) : g.Linkless := by
  induction names generalizing f with
  | nil => cases hget; exact h
  | cons name rest ih =>
    obtain ⟨inside, hfound, hinside⟩ := find?_of_get?_cons hget
    exact ih (h.find? hfound) hinside

/-- What stands in a tree without links is a folder or a file. -/
theorem Linkless.node?_ne_link {f : Folder} (h : f.Linkless) (names : List Text) (target : Text) :
    f.node? names ≠ some (.link target) := by
  induction names generalizing f with
  | nil => simp
  | cons name rest ih =>
    by_cases hfolder : ∃ inside, f.find? name = some (.folder inside)
    · obtain ⟨inside, hfound⟩ := hfolder
      rw [node?_cons_of_folder hfound]
      exact ih (h.find? hfound)
    · by_cases hrest : rest = []
      · rw [hrest, node?_singleton, ne_eq, Option.map_eq_some_iff]
        rintro ⟨e, hfound, he⟩
        cases e with
        | file _ => cases he
        | link other => exact h.find?_ne_link name other hfound
        | folder inside => exact hfolder ⟨inside, hfound⟩
      · rw [node?_cons_of_not_folder (fun inside hfound => hfolder ⟨inside, hfound⟩) hrest]
        simp

theorem Proper.cons {rest : Folder} (h : rest.Proper) {name : Text} (hname : IsName name)
    (hnew : name ∉ rest.names) {e : Entry} (he : ∀ inside, e = .folder inside → inside.Proper) :
    (cons name e rest).Proper := by
  cases e with
  | file _ => exact ⟨hname, hnew, h⟩
  | link _ => exact ⟨hname, hnew, h⟩
  | folder inside => exact ⟨hname, hnew, h, he inside rfl⟩

theorem Proper.put {f : Folder} (h : f.Proper) {name : Text} (hname : IsName name) {e : Entry}
    (he : ∀ inside, e = .folder inside → inside.Proper) : (f.put name e).Proper := by
  induction f with
  | empty =>
    have hempty : Folder.empty.Proper := trivial
    exact hempty.cons hname List.not_mem_nil he
  | file n _ rest ih | link n _ rest ih =>
    rw [Folder.put]
    split
    · rename_i hn
      exact h.2.2.cons hname (hn ▸ h.2.1) he
    · rename_i hn
      exact ⟨h.1, by simp [mem_names_put, hn, h.2.1], ih h.2.2⟩
  | folder n _ rest _ ih =>
    rw [Folder.put]
    split
    · rename_i hn
      exact h.2.2.1.cons hname (hn ▸ h.2.1) he
    · rename_i hn
      exact ⟨h.1, by simp [mem_names_put, hn, h.2.1], ih h.2.2.1, h.2.2.2⟩

theorem Proper.set {f : Folder} (h : f.Proper) {e : Entry} (hleaf : Leaf e) {names : List Text}
    (hnames : ∀ name ∈ names, IsName name) : (f.set e names).Proper := by
  induction names generalizing f with
  | nil => exact h
  | cons name rest ih =>
    have hname := hnames name List.mem_cons_self
    cases rest with
    | nil =>
      apply h.put hname
      rintro inside rfl
      cases hleaf
      trivial
    | cons next rest =>
      rw [Folder.set]
      · split
        · rename_i inside hfound
          refine h.put hname ?_
          intro inside' hinside
          cases hinside
          apply ih (h.find? hfound)
          intro n hn
          exact hnames n (List.mem_cons_of_mem _ hn)
        · exact h
      · simp

theorem Linkless.cons {rest : Folder} (h : rest.Linkless) (name : Text) {e : Entry}
    (hlink : ∀ target, e ≠ .link target) (he : ∀ inside, e = .folder inside → inside.Linkless) :
    (cons name e rest).Linkless := by
  cases e with
  | file _ => exact h
  | link target => exact (hlink target rfl).elim
  | folder inside => exact ⟨he inside rfl, h⟩

theorem Linkless.put {f : Folder} (h : f.Linkless) (name : Text) {e : Entry}
    (hlink : ∀ target, e ≠ .link target) (he : ∀ inside, e = .folder inside → inside.Linkless) :
    (f.put name e).Linkless := by
  induction f with
  | empty =>
    have hempty : Folder.empty.Linkless := trivial
    exact hempty.cons name hlink he
  | file n _ rest ih =>
    rw [Folder.put]
    split
    · exact Linkless.cons (show rest.Linkless from h) name hlink he
    · exact ih h
  | link n _ rest ih => exact h.elim
  | folder n _ rest _ ih =>
    rw [Folder.put]
    split
    · exact Linkless.cons h.2 name hlink he
    · exact ⟨h.1, ih h.2⟩

theorem Linkless.set {f : Folder} (h : f.Linkless) {e : Entry} (hleaf : Leaf e)
    (names : List Text) : (f.set e names).Linkless := by
  induction names generalizing f with
  | nil => exact h
  | cons name rest ih =>
    cases rest with
    | nil =>
      refine h.put name ?_ ?_
      · rintro target rfl
        cases hleaf
      · rintro inside rfl
        cases hleaf
        trivial
    | cons next rest =>
      rw [Folder.set]
      · split
        · rename_i inside hfound
          refine h.put name (by simp) ?_
          intro inside' hinside
          cases hinside
          exact ih (h.find? hfound)
        · exact h
      · simp

end Folder

end LessonPages
