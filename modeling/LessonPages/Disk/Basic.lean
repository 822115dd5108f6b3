import LessonPages.Disk.Fault
import LessonPages.Disk.Folder
import LessonPages.Path

/-!
# Disks and where paths lead

A disk is a tree of folders together with the folder that relative paths start from. A path is
followed name by name: links are replaced by their targets on the way, at most forty of them.

* `Trail` — the folders that were walked into on the way.
* `Disk.locate` — where a path leads: to a folder, or to a name in a folder, whether or not
  something has that name yet.
* `Disk.look` — the entry at the end of a path.
-/

namespace LessonPages

/-- The root folder, and the names that lead from it to the current folder. -/
structure Disk where
  root : Folder
  cwd : List Text
  deriving DecidableEq, Repr

/-- What a path is followed for. -/
inductive Purpose where
  /-- To look at what is there, through a link at its end. -/
  | look
  /-- To look at what is there, a link at its end included. -/
  | lookAtLink
  /-- To write a file. -/
  | write
  /-- To make a folder. -/
  | makeFolder
  deriving DecidableEq, Repr

/-- Whether a link at the end of a path is followed; `slash` says that a slash stands behind it. -/
def Purpose.followsLast (slash : Bool) : Purpose → Bool
  | .look => true
  | .lookAtLink => slash
  | .write => !slash
  | .makeFolder => false

/-- Where a path leads. -/
inductive Place where
  /-- To a folder that was walked into, by its names from the root. -/
  | folder (names : List Text)
  /-- To a name in a folder; `slash` says that a slash stands behind the name. -/
  | slot (folder : List Text) (name : Text) (slash : Bool)
  deriving DecidableEq, Repr

/-- Whether a name has more bytes than a disk can hold for it. -/
def isLongName (name : Text) : Bool := 255 < (Utf8.encode name).length

/-- Whether a path has more bytes than can be asked for at once. -/
def isLongPath (path : Text) : Bool := 4096 ≤ (Utf8.encode path).length

/-- How many links are followed for one path. -/
def linkLimit : Nat := 40

/-- Folders walked into one after another from a root, each with its name, the last one first. -/
abbrev Trail := List (Text × Folder)

namespace Trail

/-- The names that lead to the end of a trail. -/
def names (t : Trail) : List Text := (t.map (·.1)).reverse

/-- The folder at the end of a trail. -/
def folder (root : Folder) : Trail → Folder
  | [] => root
  | (_, inside) :: _ => inside

/-- Whether each folder of a trail is what the one before it holds under its name. -/
def Leads (root : Folder) : Trail → Prop
  | [] => True
  | (name, inside) :: t => (folder root t).find? name = some (.folder inside) ∧ Leads root t

/-- The trail that goes on from another along some names, if they all lead to folders. -/
def along? (root : Folder) (t : Trail) : List Text → Option Trail
  | [] => some t
  | name :: rest =>
    match (t.folder root).find? name with
    | some (.folder inside) => along? root ((name, inside) :: t) rest
    | _ => none

@[simp] theorem names_cons (name : Text) (inside : Folder) (t : Trail) :
    names ((name, inside) :: t) = names t ++ [name] := by
  simp [names]

theorem leads_tail {root : Folder} {t : Trail} (h : t.Leads root) : Leads root t.tail := by
  cases t with
  | nil => exact h
  | cons _ _ => exact h.2

/-- What is found from the end of a trail is what the root has behind the names of the trail. -/
theorem get?_names_append {root : Folder} {t : Trail} (h : t.Leads root) (rest : List Text) :
    root.get? (t.names ++ rest) = (t.folder root).get? rest := by
  induction t generalizing rest with
  | nil => rfl
  | cons p t ih =>
    obtain ⟨name, inside⟩ := p
    rw [names_cons, List.append_assoc, List.singleton_append, ih h.2, Folder.get?, h.1]
    rfl

theorem leads_of_along? {root : Folder} {t u : Trail} {names : List Text} (h : t.Leads root)
    (hu : t.along? root names = some u) : u.Leads root := by
  induction names generalizing t with
  | nil => cases hu; exact h
  | cons name rest ih =>
    rw [along?] at hu
    split at hu
    · rename_i inside found
      exact ih (t := (name, inside) :: t) ⟨found, h⟩ hu
    · cases hu

end Trail

namespace Folder

/-- Follows names from the end of a trail. Where a link is to be followed, `viaLink` goes on from the
trail at which its target starts, with the names of the target and those still to come. -/
def followNames (root : Folder) (purpose : Purpose)
    (viaLink : Trail → List Text → Except Refusal Place) (trail : Trail) :
    List Text → Except Refusal Place
  | [] => .ok (.folder trail.names)
  | name :: rest =>
    let onLink (target : Text) :=
      viaLink (if Path.isAbsolute target then [] else trail) (target.splitOn '/' ++ rest)
    if name = [] ∨ name = Path.here then followNames root purpose viaLink trail rest
    else if name = Path.up then followNames root purpose viaLink trail.tail rest
    else if rest.all List.isEmpty then
      let slash := !rest.isEmpty
      match (trail.folder root).find? name with
      | some (.link target) =>
        if purpose.followsLast slash then onLink target else .ok (.slot trail.names name slash)
      | _ => .ok (.slot trail.names name slash)
    else if isLongName name then .error .nameTooLong
    else
      match (trail.folder root).find? name with
      | none => .error .notFound
      | some (.file _) => .error .notFolder
      | some (.folder inside) => followNames root purpose viaLink ((name, inside) :: trail) rest
      | some (.link target) => onLink target

/-- Follows names from the end of a trail through at most a given number of links. -/
def follow (root : Folder) (purpose : Purpose) : Nat → Trail → List Text → Except Refusal Place
  | 0 => root.followNames purpose fun _ _ => .error .tooManyLinks
  | links + 1 => root.followNames purpose (root.follow purpose links)

end Folder

namespace Disk

/-- The path of the current folder. -/
def cwdPath (d : Disk) : Text := Path.ofNames d.cwd

/-- The trail that a path starts from: none from the root on, else that of the current folder. -/
def start? (d : Disk) (path : Text) : Option Trail :=
  if Path.isAbsolute path then some [] else Trail.along? d.root [] d.cwd

/-- Where a path leads. -/
def locate (d : Disk) (purpose : Purpose) (path : Text) : Except Refusal Place :=
  if path = [] then .error .notFound
  else if isLongPath path then .error .nameTooLong
  else
    match d.start? path with
    | none => .error .notFound
    | some trail => d.root.follow purpose linkLimit trail (path.splitOn '/')

theorem leads_of_start? {d : Disk} {path : Text} {trail : Trail} (h : d.start? path = some trail) :
    trail.Leads d.root := by
  unfold start? at h
  split at h
  · cases h; trivial
  · exact Trail.leads_of_along? (t := []) trivial h

/-- The entry at a place. -/
def entryAt (d : Disk) : Place → Except Refusal Entry
  | .folder names =>
    match d.root.get? names with
    | some entry => .ok entry
    | none => .error .notFound
  | .slot folder name slash =>
    if isLongName name then .error .nameTooLong
    else
      match d.root.get? (folder ++ [name]) with
      | none => .error .notFound
      | some (.file content) => if slash then .error .notFolder else .ok (.file content)
      | some entry => .ok entry

/-- The entry at the end of a path. -/
def look (d : Disk) (purpose : Purpose) (path : Text) : Except Refusal Entry :=
  match d.locate purpose path with
  | .error cause => .error cause
  | .ok place => d.entryAt place

end Disk

end LessonPages
