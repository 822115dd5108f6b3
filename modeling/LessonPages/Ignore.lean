import LessonPages.Disk.Access
import LessonPages.Failure
import LessonPages.Pattern.Verdict
import LessonPages.Text.Lines

/-!
# Ignore files

An ignore file holds rules for the paths below its folder. For a folder the nearest ignore file
counts, in it or in a folder above it; its rules see paths relative to where the file lies.

* `Ignore.find?` — the nearest ignore file.
* `IgnoreRules.load` — its rules.
* `IgnoreRules.ignores` — what they say about a path.
-/

namespace LessonPages

/-- The name of an ignore file. -/
def ignoreFileName : Text := ".gitignore".toList

/-- The rules of an ignore file, and the folder that it lies in (`IgnoreRules`). -/
structure IgnoreRules where
  base : Text
  rules : List Rule
  deriving DecidableEq, Repr

namespace Ignore

/-- A path and those above it, up to the one that is above itself (`find_gitignore`, what its loop
goes through). -/
def selfAndParents (path : Text) : List Text :=
  if _h : (Path.parent path).length < path.length then
    path :: selfAndParents (Path.parent path)
  else [path]
termination_by path.length

/-- The path of the nearest ignore file in a folder or above it (`find_gitignore`). -/
def find? (d : Disk) (start : Text) : Option Text :=
  ((selfAndParents (Path.absolute d.cwdPath start)).map (Path.join · ignoreFileName)).find? d.isFile

end Ignore

namespace IgnoreRules

/-- The text of an ignore file (`load_ignore_rules`, its reading). -/
def readText (d : Disk) (path : Text) : Except Failure Text :=
  let failed (fault : ReadFault) : Failure := .discovery (.unreadableRules path fault)
  match d.read path with
  | .error .nulInPath => .error .nulInPath
  | .error (.refused refusal) => .error (failed (.disk refusal))
  | .ok bytes =>
    match Utf8.decode bytes with
    | .error fault => .error (failed (.undecodable fault))
    | .ok text => .ok text.unifyNewlines

/-- The rules that hold for a folder, if there is an ignore file for it (`load_ignore_rules`). -/
def load (d : Disk) (root : Text) : Except Failure (Option IgnoreRules) :=
  match Ignore.find? d root with
  | none => .ok none
  | some path =>
    match readText d path with
    | .error failure => .error failure
    | .ok text =>
      match Rule.ofLines text.entryLines with
      | .error fault => .error (.badRule fault)
      | .ok rules => .ok (some ⟨Path.parent path, rules⟩)

/-- A path as the rules see it (`IgnoreRules.ignores`, its `rel`): from their folder on, with a
slash behind a folder. -/
def seen (r : IgnoreRules) (d : Disk) (path : Text) (isFolder : Bool) : Text :=
  Path.relative r.base (Path.absolute d.cwdPath path) ++ if isFolder then ['/'] else []

/-- Whether the rules ignore a path (`IgnoreRules.ignores`). -/
def ignores (r : IgnoreRules) (d : Disk) (path : Text) (isFolder : Bool) : Bool :=
  Rule.verdict r.rules (r.seen d path isFolder)

end IgnoreRules

end LessonPages
