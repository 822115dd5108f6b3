import LessonPages.Disk.Fault
import LessonPages.Pattern.Reading
import LessonPages.Text.Utf8

/-!
# Failures

Everything that can end a run before its time, as causes with the wording of each.

* `DiscoveryFault` — the lessons cannot be listed.
* `PageFault` — a lesson cannot be read, or a page or its folder cannot be made.
* `Failure` — any of these, or a fault that neither of them takes in.
-/

namespace LessonPages

/-- Why an ignore file cannot be read (`load_ignore_rules`, what it catches). -/
inductive ReadFault where
  | disk (refusal : DiskRefusal)
  | undecodable (fault : Utf8.Fault)
  deriving DecidableEq, Repr

/-- The fault in words. -/
def ReadFault.message : ReadFault → Text
  | .disk refusal => refusal.message
  | .undecodable fault => fault.message

/-- Why lessons cannot be listed (`DiscoveryError`). -/
inductive DiscoveryFault where
  | notAFolder (root : Text)
  | badPattern (pattern : Text) (fault : PatternFault)
  | unreadableRules (path : Text) (fault : ReadFault)
  | unlistable (path : Text) (refusal : DiskRefusal)
  deriving DecidableEq, Repr

/-- The fault in words. -/
def DiscoveryFault.message : DiscoveryFault → Text
  | .notAFolder root => "Source root '".toList ++ root ++ "' is not a directory".toList
  | .badPattern pattern fault =>
    "Invalid discovery pattern '".toList ++ pattern ++ "': ".toList ++ fault.message
  | .unreadableRules path fault =>
    "Failed to read '".toList ++ path ++ "': ".toList ++ fault.message
  | .unlistable path refusal =>
    "Failed to list '".toList ++ path ++ "': ".toList ++ refusal.message

/-- What was tried on the disk. -/
inductive PageAction where
  | read
  | makeFolder
  | write
  deriving DecidableEq, Repr

/-- The attempt in words. -/
def PageAction.message : PageAction → Text
  | .read => "Failed to read".toList
  | .makeFolder => "Failed to create directory".toList
  | .write => "Failed to write".toList

/-- A refusal met while pages are made (`PageIOError`): what was tried, on which path, and why it
failed. The path in the refusal can be that of a folder on the way. -/
structure PageFault where
  action : PageAction
  path : Text
  refusal : DiskRefusal
  deriving DecidableEq, Repr

/-- The fault in words. -/
def PageFault.message (f : PageFault) : Text :=
  f.action.message ++ " '".toList ++ f.path ++ "': ".toList ++ f.refusal.message

/-- Why a run, or a part of it, ended early. -/
inductive Failure where
  | discovery (fault : DiscoveryFault)
  | page (fault : PageFault)
  /-- A lesson is not UTF-8. -/
  | undecodable (fault : Utf8.Fault)
  /-- A path holds a NUL character. -/
  | nulInPath
  /-- A line of an ignore file is no pattern. -/
  | badRule (fault : PatternFault)
  deriving DecidableEq, Repr

namespace Failure

/-- The failure in words. -/
def message : Failure → Text
  | .discovery fault => fault.message
  | .page fault => fault.message
  | .undecodable fault => fault.message
  | .nulInPath => "embedded null byte".toList
  | .badRule fault => fault.message

/-- Whether a failure is one that a run announces (`DiscoveryError`, `PageIOError`): only those are
reported to the user as an error. -/
def isDeclared : Failure → Bool
  | .discovery _ | .page _ => true
  | .undecodable _ | .nulInPath | .badRule _ => false

/-- A fault of the disk met by an action on a path. -/
def ofDisk (action : PageAction) (path : Text) : DiskFault → Failure
  | .nulInPath => .nulInPath
  | .refused refusal => .page ⟨action, path, refusal⟩

end Failure

end LessonPages
