import LessonPages.Ignore

/-!
# Discovery

Finds the lessons below a folder: the files whose path from there matches a pattern, without hidden
files, hidden folders and what an ignore file excludes. What is excluded is kept as a finding, so
that a run can tell of it. A folder that cannot be listed ends the discovery.

* `Discovery.Search.walk` — what is met below a folder, in the order in which it is met: the files that
  the pattern chooses, and the folders that cannot be listed.
* `survey` — the findings of a walk from a folder, up to the first folder that cannot be listed.
* `discover` — the lessons below a folder, sorted, or the failure of the walk.
-/

namespace LessonPages

namespace Discovery

/-- The pattern of a lesson unless another one is asked for (`DEFAULT_PATTERN`). -/
def defaultPattern : Text := "**/*.ts".toList

/-- Whether a name is hidden (`discover_files`, for files and folders alike). -/
def isHidden (name : Text) : Bool := name.head? = some '.'

/-- Puts an element in front of the first one whose key is not before its own. -/
def insertBy {α : Type} (key : α → Text) (a : α) : List α → List α
  | [] => [a]
  | b :: rest => if key b < key a then b :: insertBy key a rest else a :: b :: rest

/-- Elements in the order of their keys, which go by the code points of their characters (`sorted`). -/
def sortBy {α : Type} (key : α → Text) : List α → List α
  | [] => []
  | a :: rest => insertBy key a (sortBy key rest)

theorem perm_insertBy {α : Type} (key : α → Text) (a : α) (as : List α) :
    (insertBy key a as).Perm (a :: as) := by
  induction as with
  | nil => exact .refl _
  | cons b rest ih =>
    simp only [insertBy]
    split
    · exact (ih.cons b).trans (.swap a b rest)
    · exact .refl _

theorem perm_sortBy {α : Type} (key : α → Text) (as : List α) : (sortBy key as).Perm as := by
  induction as with
  | nil => exact .refl _
  | cons a rest ih => exact (perm_insertBy key a _).trans (ih.cons a)

/-- A file that the pattern chooses: its path from the root of the walk, and whether the ignore file
excludes it. -/
structure Finding where
  path : Text
  ignored : Bool
  deriving DecidableEq, Repr

/-- What a walk comes upon. -/
inductive Sight where
  | found (finding : Finding)
  /-- A folder that cannot be listed, as the failure of the discovery. -/
  | blocked (failure : Failure)
  deriving DecidableEq, Repr

/-- What a walk comes upon in a folder: the findings among its own files, in the order of its entries,
and what is below each of its folders that is entered. -/
structure Sights where
  own : List Finding
  below : List (Text × List Sight)
  deriving DecidableEq, Repr

/-- What a walk comes upon, in its order: first the findings of the folder itself, then what is below
each folder, by the names of the folders. -/
def Sights.inOrder (f : Sights) : List Sight :=
  f.own.map .found ++ (sortBy (·.1) f.below).flatMap (·.2)

/-- The lessons among findings, sorted. -/
def lessons (findings : List Finding) : List Text :=
  sortBy id ((findings.filter (!·.ignored)).map (·.path))

/-- How far a discovery has come: the findings that it has met, in their order, and the failure that
has ended it, if any. -/
structure Survey where
  findings : List Finding
  failure : Option Failure
  deriving DecidableEq, Repr

namespace Survey

/-- A discovery that fails before it has met anything. -/
def failed (failure : Failure) : Survey := ⟨[], some failure⟩

/-- A discovery goes by what a walk comes upon, up to the first folder that cannot be listed. -/
def ofSights : List Sight → Survey
  | [] => ⟨[], none⟩
  | .found finding :: rest => { ofSights rest with findings := finding :: (ofSights rest).findings }
  | .blocked failure :: _ => failed failure

/-- The findings that are passed over, as they were met. -/
def passedOver (s : Survey) : List Text := (s.findings.filter (·.ignored)).map (·.path)

/-- The lessons of a discovery, unless it has failed. -/
def result (s : Survey) : Except Failure (List Text) :=
  match s.failure with
  | some failure => .error failure
  | none => .ok (lessons s.findings)

end Survey

/-- What a folder holds, or how a discovery fails that cannot list it (`_on_error`). -/
def listFolder (d : Disk) (path : Text) : Except Failure Folder :=
  match d.list path with
  | .error .nulInPath => .error .nulInPath
  | .error (.refused refusal) => .error (.discovery (.unlistable path refusal))
  | .ok inside => .ok inside

/-- What a walk goes by: the disk, the rules that choose lessons, and the rules that exclude. -/
structure Search where
  disk : Disk
  chosen : List Rule
  ignored : Option IgnoreRules

namespace Search

/-- Whether a path is excluded (`discover_files`, where it asks the rules if there are any). -/
def excludes (s : Search) (path : Text) (isFolder : Bool) : Bool :=
  match s.ignored with
  | some rules => rules.ignores s.disk path isFolder
  | none => false

/-- The finding that a file is, if any (`discover_files`, the body of its loop over the files):
`path` is its path on the disk, `found` its path from the root of the walk. -/
def finding (s : Search) (name path found : Text) : List Finding :=
  if !isHidden name && Rule.verdict s.chosen found then [⟨found, s.excludes path false⟩] else []

/-- What a walk comes upon when it enters a folder (`os.walk`, its call of `scandir`): what it meets
there, or only that the folder cannot be listed. -/
def enter (s : Search) (path : Text) (inside : Sights) : List Sight :=
  match listFolder s.disk path with
  | .error failure => [.blocked failure]
  | .ok _ => inside.inOrder

/-- What a walk comes upon in the entries of a folder (`discover_files`, one turn of its loop over
`os.walk`): `path` is its path on the disk, `below` its path from the root of the walk, with a slash
behind it unless it is the root itself. A link to a folder is not entered; any other link counts as
a file. -/
def visit (s : Search) (path below : Text) : Folder → Sights
  | .empty => ⟨[], []⟩
  | .file name _ rest =>
    let later := s.visit path below rest
    { later with own := s.finding name (Path.join path name) (below ++ name) ++ later.own }
  | .link name _ rest =>
    let later := s.visit path below rest
    if s.disk.isFolder (Path.join path name) then later
    else { later with own := s.finding name (Path.join path name) (below ++ name) ++ later.own }
  | .folder name inside rest =>
    let later := s.visit path below rest
    if isHidden name || s.excludes (Path.join path name) true then later
    else
      -- the recursion is on the tree, which holds for the folder what a listing gives
      let there := s.visit (Path.join path name) (below ++ name ++ ['/']) inside
      { later with below := (name, s.enter (Path.join path name) there) :: later.below }

/-- What a walk comes upon that starts in the folder of a path, with what the folder holds
(`os.walk`). -/
def walk (s : Search) (top : Text) (inside : Folder) : List Sight :=
  (s.visit top [] inside).inOrder

end Search

/-- The rules that a discovery pattern stands for: one or none (`_compile_pattern`). -/
def readPattern (pattern : Text) : Except Failure (List Rule) :=
  match Rule.ofLine pattern with
  | .error fault => .error (.discovery (.badPattern pattern fault))
  | .ok rule => .ok rule.toList

end Discovery

open Discovery in
/-- A discovery from a folder (`discover_files`, with all that it meets on the way). With
`respectIgnore` the nearest ignore file excludes lessons and folders. -/
def survey (d : Disk) (root pattern : Text) (respectIgnore : Bool) : Survey :=
  if !d.isFolder root then .failed (.discovery (.notAFolder root))
  else
    let top := Path.absolute d.cwdPath root
    match readPattern pattern with
    | .error failure => .failed failure
    | .ok chosen =>
      match if respectIgnore then IgnoreRules.load d top else .ok none with
      | .error failure => .failed failure
      | .ok ignored =>
        match listFolder d top with
        | .error failure => .failed failure
        | .ok inside => .ofSights ((⟨d, chosen, ignored⟩ : Search).walk top inside)

/-- The lessons below a folder, by their paths from it, sorted (`discover_files`). -/
def discover (d : Disk) (root pattern : Text) (respectIgnore : Bool) :
    Except Failure (List Text) :=
  (survey d root pattern respectIgnore).result

end LessonPages
