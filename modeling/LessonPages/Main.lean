import LessonPages.Command.Execute
import LessonPages.Disk.Listing

/-!
# The program

Turns lessons into pages. What the program may see of the disk is listed on standard input, one
entry a line, as `find FOLDER -printf '%y\t%p\t%l\n'` prints it with a folder given from the root.
The files listed are read before the run; what the run makes or changes is written after it.
-/

open LessonPages

namespace LessonPages.Main

/-- The lines of a stream. -/
partial def readLines (input : IO.FS.Stream) : IO (List Text) := do
  let line ← input.getLine
  if line.isEmpty then return []
  return Text.trimRight (· == '\n') line.toList :: (← readLines input)

/-- The entry that a listing names, with the bytes of a file. -/
def load : Listed → IO (Text × Entry)
  | .file path => do
    let content ← IO.FS.readBinFile (String.ofList path)
    return (path, .file content.toList)
  | .folder path => return (path, .folder .empty)
  | .link path target => return (path, .link target)

/-- Does to the real disk what a run did. -/
def carryOut : Disk.Change → IO Unit
  | .makeFolder path => IO.FS.createDir (String.ofList path)
  | .writeFile path content => IO.FS.writeBinFile (String.ofList path) ⟨content.toArray⟩

end LessonPages.Main

def main (args : List String) : IO UInt32 := do
  let listed := (← LessonPages.Main.readLines (← IO.getStdin)).filterMap Listed.ofLine
  let cwd := (← IO.getEnv "PWD").getD "/"
  let before := Disk.ofListing cwd.toList (← listed.mapM LessonPages.Main.load)
  let (after, report) := execute before (args.map String.toList)
  (before.changes after).forM LessonPages.Main.carryOut
  IO.print (String.ofList report.out)
  IO.eprint (String.ofList report.err)
  match report.ending with
  | .exit status => return status.toUInt32
  | .failure failure =>
    IO.eprintln (String.ofList failure.message)
    return 1
