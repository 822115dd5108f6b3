import LessonPages.Settings

/-!
# Converting one lesson

Reading a lesson, making its page, and writing the page and the index to the disk. Each step either
gives its result and the disk as it is afterwards, or a failure; the folders made before a failure
stay.

* `Disk.readText`, `Disk.writeText`, `Disk.ensureFolders` — the steps, with their failures.
* `convertFile` — one lesson.
* `generateIndex` — the index page.
-/

namespace LessonPages

namespace Disk

/-- The text of a file, every line end read as a newline (`read_text`). -/
def readText (d : Disk) (path : Text) : Except Failure Text :=
  match d.read path with
  | .error fault => .error (.ofDisk .read path fault)
  | .ok bytes =>
    match Utf8.decode bytes with
    | .error fault => .error (.undecodable fault)
    | .ok text => .ok text.unifyNewlines

/-- The disk after a text has been written to a file as it is (`write_text`). -/
def writeText (d : Disk) (path text : Text) : Except Failure Disk :=
  match d.write path (Utf8.encode text) with
  | .error fault => .error (.ofDisk .write path fault)
  | .ok d' => .ok d'

/-- The disk after a folder, and all that lead to it, are there (`ensure_dir`); folders made before
a failure stay. -/
def ensureFolders (d : Disk) (path : Text) : Disk × Except Failure Unit :=
  match d.makeFolders path with
  | (d', .error fault) => (d', .error (.ofDisk .makeFolder path fault))
  | (d', .ok ()) => (d', .ok ())

/-- Writes a text to a file in a folder that is made if need be (`ensure_dir`, then `write_text`). -/
def writeInFolder (d : Disk) (folder path text : Text) : Disk × Except Failure Unit :=
  match d.ensureFolders folder with
  | (d', .error failure) => (d', .error failure)
  | (d', .ok ()) =>
    match d'.writeText path text with
    | .error failure => (d', .error failure)
    | .ok d'' => (d'', .ok ())

end Disk

/-- The path of a lesson, or of a page, whose name is given from a folder on (`convert_file`,
`source_path` and `page_path`). -/
def pathBelow (folder name : Text) : Text := Path.joinAll folder (name.splitOn '/')

/-- Converts a lesson, given by its name from the folder of lessons on, and gives the name of the
page (`convert_file`). Nothing is made or written if the lesson cannot be read. -/
def convertFile (d : Disk) (s : Settings) (lesson : Text) : Disk × Except Failure Text :=
  match d.readText (pathBelow s.source lesson) with
  | .error failure => (d, .error failure)
  | .ok text =>
    let page := pageName s.extension lesson
    let path := pathBelow s.destination page
    match d.writeInFolder (Path.parent path) path (Page.ofLesson s.language text) with
    | (d', .error failure) => (d', .error failure)
    | (d', .ok ()) => (d', .ok page)

/-- Writes the index of some pages and gives its path (`generate_index`). -/
def generateIndex (d : Disk) (folder : Text) (pages : List Text) (name : Text) :
    Disk × Except Failure Text :=
  let path := Path.join folder name
  match d.writeInFolder folder path (Index.page pages) with
  | (d', .error failure) => (d', .error failure)
  | (d', .ok ()) => (d', .ok path)

end LessonPages
