import LessonPages.Disk.Basic

/-!
# Reading and writing on a disk

What a program does with a disk. Looking never changes it; writing and making folders give the disk
as it is afterwards.

* `Disk.isFolder`, `Disk.isFile`, `Disk.holds` — questions, answered `false` where the path leads
  nowhere.
* `Disk.read`, `Disk.write` — the bytes of a file.
* `Disk.makeFolder`, `Disk.makeFolders` — one folder; a folder with all that lead to it.
-/

namespace LessonPages.Disk

open Utf8 (Bytes)

/-- Whether a path holds the character that no path may hold. -/
def hasNul (path : Text) : Bool := path.contains '\x00'

/-- A refusal of what was asked of a path. -/
def refuse (path : Text) (cause : Refusal) : DiskFault := .refused ⟨cause, path⟩

/-- What a path leads to, if anything. -/
def find? (d : Disk) (path : Text) : Option Entry :=
  if hasNul path then none else (d.look .look path).toOption

/-- Whether a path leads to a folder (`os.path.isdir`). -/
def isFolder (d : Disk) (path : Text) : Bool :=
  match d.find? path with
  | some (.folder _) => true
  | _ => false

/-- Whether a path leads to a file (`os.path.isfile`). -/
def isFile (d : Disk) (path : Text) : Bool :=
  match d.find? path with
  | some (.file _) => true
  | _ => false

/-- Whether a path leads to anything (`os.path.exists`). -/
def holds (d : Disk) (path : Text) : Bool := (d.find? path).isSome

/-- The bytes of a file (`open`, for reading). -/
def read (d : Disk) (path : Text) : Except DiskFault Bytes :=
  if hasNul path then .error .nulInPath
  else
    match d.look .look path with
    | .error cause => .error (refuse path cause)
    | .ok (.file content) => .ok content
    | .ok _ => .error (refuse path .isFolder)

/-- What a folder holds (`os.scandir`). -/
def list (d : Disk) (path : Text) : Except DiskFault Folder :=
  if hasNul path then .error .nulInPath
  else
    match d.look .look path with
    | .error cause => .error (refuse path cause)
    | .ok (.folder inside) => .ok inside
    | .ok _ => .error (refuse path .notFolder)

/-- Why no file can be written at a place, or else the names that lead to the file. -/
def fileSpot (d : Disk) : Place → Except Refusal (List Text)
  | .folder _ => .error .isFolder
  | .slot folder name slash =>
    if slash then .error .isFolder
    else if isLongName name then .error .nameTooLong
    else
      match d.root.get? (folder ++ [name]) with
      | some (.folder _) => .error .isFolder
      | _ => .ok (folder ++ [name])

/-- The disk after a file has been given some bytes (`open`, for writing). A file that is not there
is made; a link at the end of the path is followed, whether or not its target is there. -/
def write (d : Disk) (path : Text) (content : Bytes) : Except DiskFault Disk :=
  if hasNul path then .error .nulInPath
  else
    match (d.locate .write path).bind d.fileSpot with
    | .error cause => .error (refuse path cause)
    | .ok names => .ok { d with root := d.root.set (.file content) names }

/-- Why no folder can be made at a place, or else the names that lead to it. -/
def folderSpot (d : Disk) : Place → Except Refusal (List Text)
  | .folder _ => .error .alreadyExists
  | .slot folder name _ =>
    if isLongName name then .error .nameTooLong
    else
      match d.root.get? (folder ++ [name]) with
      | some _ => .error .alreadyExists
      | none => .ok (folder ++ [name])

/-- The disk after an empty folder has been made (`os.mkdir`). -/
def makeFolder (d : Disk) (path : Text) : Except DiskFault Disk :=
  if hasNul path then .error .nulInPath
  else
    match (d.locate .makeFolder path).bind d.folderSpot with
    | .error cause => .error (refuse path cause)
    | .ok names => .ok { d with root := d.root.set (.folder .empty) names }

/-- Makes a folder unless the path leads to one already (`os.makedirs`, its last step). -/
def ensureFolder (d : Disk) (path : Text) : Disk × Except DiskFault Unit :=
  match d.makeFolder path with
  | .ok d' => (d', .ok ())
  | .error (.refused r) => (d, if d.isFolder path then .ok () else .error (.refused r))
  | .error .nulInPath => (d, .error .nulInPath)

/-- Makes a folder together with all folders that lead to it (`os.makedirs` with `exist_ok`). The
folders made before a fault stay. A folder named by a dot at the end of the path is there as soon as
the one before it is. -/
def makeFolders (d : Disk) (path : Text) : Disk × Except DiskFault Unit :=
  if _h : (Path.headName path).2 ≠ [] ∧ (Path.headName path).1 ≠ [] ∧
      d.holds (Path.headName path).1 = false then
    let made := d.makeFolders (Path.headName path).1
    let last :=
      if (Path.headName path).2 = Path.here then (made.1, .ok ()) else made.1.ensureFolder path
    match made.2 with
    | .ok () => last
    | .error fault => if fault.isAlreadyExists then last else (made.1, .error fault)
  else d.ensureFolder path
termination_by path.length
decreasing_by exact Path.length_headName_lt _h.1

end LessonPages.Disk
