import LessonPages.Disk.Basic

/-!
# Listings and changes

How a disk is told to the program, and what the program has to do to the real one afterwards.

* `Listed.ofLine` — an entry as a line: its kind, its path, the target of a link.
* `Disk.ofListing` — the disk that holds some entries.
* `Disk.changes` — what turns one disk into another.
-/

namespace LessonPages

open Utf8 (Bytes)

/-- An entry of a listing. A file is listed without its bytes. -/
inductive Listed where
  | file (path : Text)
  | folder (path : Text)
  | link (path target : Text)
  deriving DecidableEq, Repr

/-- The entry of a line: the letter `f`, `d` or `l`, the path from the root, and the target of a
link, with a tab behind the letter and behind the path. -/
def Listed.ofLine (line : Text) : Option Listed :=
  match line.splitOn '\t' with
  | ['f'] :: path :: _ => some (.file path)
  | ['d'] :: path :: _ => some (.folder path)
  | [['l'], path, target] => some (.link path target)
  | _ => none

/-- A folder with an entry put at the end of a list of names, and folders made on the way where
there are none. -/
def Folder.plant (f : Folder) (entry : Entry) : List Text → Folder
  | [] => f
  | [name] => f.put name entry
  | name :: rest =>
    match f.find? name with
    | some (.folder inside) => f.put name (.folder (inside.plant entry rest))
    | _ => f.put name (.folder (Folder.empty.plant entry rest))

namespace Disk

/-- The disk that holds some entries, each given by its path; a folder comes before what it holds. -/
def ofListing (cwd : Text) (entries : List (Text × Entry)) : Disk :=
  ⟨entries.foldl (fun root e => root.plant e.2 (Path.names e.1)) .empty, Path.names cwd⟩

/-- Something done to a disk. -/
inductive Change where
  | makeFolder (path : Text)
  | writeFile (path : Text) (content : Bytes)
  deriving DecidableEq, Repr

/-- What makes a disk hold an entry, if it does not hold it. -/
def change? (d : Disk) (names : List Text) (entry : Entry) : Option Change :=
  match entry, d.root.get? names with
  | .folder _, some (.folder _) => none
  | .folder _, _ => some (.makeFolder (Path.ofNames names))
  | .file content, found =>
    if found = some (.file content) then none else some (.writeFile (Path.ofNames names) content)
  | .link _, _ => none

/-- What has to be done to a disk so that it becomes another, outer folders first. The other disk
has at least the entries of the first one. -/
def changes (before after : Disk) : List Change :=
  (after.root.entries []).filterMap fun e => before.change? e.1 e.2

end Disk

end LessonPages
