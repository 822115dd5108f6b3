import LessonPages.Text.Utf8

/-!
# Folders

A folder is a list of entries: files with their bytes, links with their targets, and further
folders. Every statement about a tree goes through one view, `Folder.get?`, which gives the entry at
the end of a list of names.

* `Folder.find?`, `Folder.put` — one entry by its name.
* `Folder.get?`, `Folder.set` — one entry by the names that lead to it.
* `Folder.entries` — all entries below a folder.
-/

namespace LessonPages

open Utf8 (Bytes)

/-- The entries of a folder, one constructor for each kind of entry. -/
inductive Folder where
  | empty
  | file (name : Text) (content : Bytes) (rest : Folder)
  | link (name : Text) (target : Text) (rest : Folder)
  | folder (name : Text) (inside : Folder) (rest : Folder)
  deriving DecidableEq, Repr

/-- What stands behind a name. -/
inductive Entry where
  | file (content : Bytes)
  | link (target : Text)
  | folder (inside : Folder)
  deriving DecidableEq, Repr

namespace Folder

/-- A folder with one more entry in front. -/
def cons (name : Text) (entry : Entry) (rest : Folder) : Folder :=
  match entry with
  | .file content => .file name content rest
  | .link target => .link name target rest
  | .folder inside => .folder name inside rest

/-- The entry of a name. -/
def find? (name : Text) : Folder → Option Entry
  | .empty => none
  | .file n content rest => if n = name then some (.file content) else rest.find? name
  | .link n target rest => if n = name then some (.link target) else rest.find? name
  | .folder n inside rest => if n = name then some (.folder inside) else rest.find? name

/-- A folder in which a name has a given entry; a name that is new comes last. -/
def put (name : Text) (entry : Entry) : Folder → Folder
  | .empty => cons name entry .empty
  | .file n content rest =>
    if n = name then cons name entry rest else .file n content (rest.put name entry)
  | .link n target rest =>
    if n = name then cons name entry rest else .link n target (rest.put name entry)
  | .folder n inside rest =>
    if n = name then cons name entry rest else .folder n inside (rest.put name entry)

/-- The entry at the end of a list of names; the empty list leads to the folder itself. -/
def get? (f : Folder) : List Text → Option Entry
  | [] => some (.folder f)
  | name :: rest =>
    match f.find? name with
    | some (.folder inside) => inside.get? rest
    | some entry => if rest = [] then some entry else none
    | none => none

/-- A folder with an entry put at the end of a list of names. Nothing changes if the names before
the last one do not lead to a folder. -/
def set (f : Folder) (entry : Entry) : List Text → Folder
  | [] => f
  | [name] => f.put name entry
  | name :: rest =>
    match f.find? name with
    | some (.folder inside) => f.put name (.folder (inside.set entry rest))
    | _ => f

/-- All entries below a folder, each with the names that lead to it; `before` leads to
the folder itself. -/
def entries (before : List Text) : Folder → List (List Text × Entry)
  | .empty => []
  | .file n content rest => (before ++ [n], .file content) :: rest.entries before
  | .link n target rest => (before ++ [n], .link target) :: rest.entries before
  | .folder n inside rest =>
    (before ++ [n], .folder inside) :: inside.entries (before ++ [n]) ++ rest.entries before

@[simp] theorem find?_cons (name other : Text) (entry : Entry) (rest : Folder) :
    (cons name entry rest).find? other =
      if name = other then some entry else rest.find? other := by
  cases entry <;> rfl

@[simp] theorem find?_put_self (name : Text) (entry : Entry) (f : Folder) :
    (f.put name entry).find? name = some entry := by
  induction f with
  | empty => simp [put]
  | file n _ rest ih => by_cases h : n = name <;> simp [put, find?, h, ih]
  | link n _ rest ih => by_cases h : n = name <;> simp [put, find?, h, ih]
  | folder n _ rest _ ih => by_cases h : n = name <;> simp [put, find?, h, ih]

theorem find?_put_ne {name other : Text} (h : other ≠ name) (entry : Entry) (f : Folder) :
    (f.put name entry).find? other = f.find? other := by
  induction f with
  | empty => simp [put, find?, Ne.symm h]
  | file n _ rest ih => by_cases hn : n = name <;> simp [put, find?, hn, ih, Ne.symm h]
  | link n _ rest ih => by_cases hn : n = name <;> simp [put, find?, hn, ih, Ne.symm h]
  | folder n _ rest _ ih => by_cases hn : n = name <;> simp [put, find?, hn, ih, Ne.symm h]

end Folder

end LessonPages
