import LessonPages.Text.Quoted

/-!
# Faults of a disk

Why a disk refuses to read, write or make something. A path that holds a NUL character is turned
down before the disk is asked.

* `Refusal` — the causes, each with a number and a description.
* `DiskFault.message` — the wording of a fault.
-/

namespace LessonPages

/-- Why a disk refuses. -/
inductive Refusal where
  | notFound
  | alreadyExists
  | notFolder
  | isFolder
  | nameTooLong
  | tooManyLinks
  deriving DecidableEq, Repr

namespace Refusal

/-- The number of a cause (`errno`). -/
def number : Refusal → Nat
  | .notFound => 2
  | .alreadyExists => 17
  | .notFolder => 20
  | .isFolder => 21
  | .nameTooLong => 36
  | .tooManyLinks => 40

/-- The cause in words (`strerror`). -/
def description : Refusal → Text
  | .notFound => "No such file or directory".toList
  | .alreadyExists => "File exists".toList
  | .notFolder => "Not a directory".toList
  | .isFolder => "Is a directory".toList
  | .nameTooLong => "File name too long".toList
  | .tooManyLinks => "Too many levels of symbolic links".toList

end Refusal

/-- A refusal, together with the path that was asked for (`OSError`). -/
structure DiskRefusal where
  cause : Refusal
  path : Text
  deriving DecidableEq, Repr

/-- The refusal in words. -/
def DiskRefusal.message (r : DiskRefusal) : Text :=
  "[Errno ".toList ++ Text.ofNat r.cause.number ++ "] ".toList ++ r.cause.description
    ++ ": ".toList ++ r.path.quoted

/-- Why something asked of a disk was not done. -/
inductive DiskFault where
  /-- The path holds a NUL character. -/
  | nulInPath
  | refused (refusal : DiskRefusal)
  deriving DecidableEq, Repr

/-- Whether a fault says that something already has the name of what was to be made. -/
def DiskFault.isAlreadyExists : DiskFault → Bool
  | .refused r => r.cause = .alreadyExists
  | .nulInPath => false

end LessonPages
