import LessonPages.Text.Basic

/-!
# Patterns

Patterns choose paths. A pattern is a sequence of segments, one for each folder level; a rule is a
pattern that selects the paths it matches or, behind an exclamation mark, takes them back.

* `Part.run`, `Part.runAll` — whether a part, or a sequence of parts, matches at the start of a text.
* `Pattern.shape` — what a path is searched for: any character, any slash, or a sequence of parts
  that has to match from the start of the path.
-/

namespace LessonPages

/-- One item of a character class. -/
inductive ClassItem where
  | one (c : Char)
  /-- All characters between two code points, both included. -/
  | range (first last : Char)
  deriving DecidableEq, Repr

/-- Whether an item holds a character. -/
def ClassItem.has : ClassItem → Char → Bool
  | .one d, c => c = d
  | .range first last, c => first ≤ c && c ≤ last

/-- A piece of a segment. -/
inductive Atom where
  | literal (c : Char)
  /-- One character of a name. -/
  | anyChar
  /-- Any number of characters of a name. -/
  | anyRun
  /-- One character of a class, or one that is not of it. A negated class holds slashes, too. -/
  | oneOf (negated : Bool) (items : List ClassItem)
  deriving DecidableEq, Repr

/-- One level of a pattern. -/
inductive Segment where
  /-- Any number of levels. -/
  | anyDepth
  /-- One level with any name. -/
  | anyName
  /-- One level whose name is described by its pieces. -/
  | glob (atoms : List Atom)
  deriving DecidableEq, Repr

/-- What is matched one after another against a path. -/
inductive Part where
  /-- Nothing, or folders from the start of the path up to and with a slash. -/
  | leadingFolders
  /-- Nothing, or a slash and at least one character of further levels. -/
  | innerFolders
  | slash
  /-- At least one character of a name. -/
  | name
  | atom (a : Atom)
  /-- A slash, or the end of the path; a newline may stand behind the end. -/
  | ending
  deriving DecidableEq, Repr

/-- What a path is searched for. -/
inductive Shape where
  /-- Any character but a newline, anywhere. -/
  | anyChar
  /-- A slash, anywhere. -/
  | anySlash
  /-- All parts one after another, from the start; what follows them is free. -/
  | fromStart (parts : List Part)
  deriving DecidableEq, Repr

/-- A pattern: its levels, and whether it is for folders alone. -/
structure Pattern where
  segments : List Segment
  folderOnly : Bool
  deriving DecidableEq, Repr

/-- A pattern, and whether it selects what it matches or takes it back (pathspec's `include`). -/
structure Rule where
  selects : Bool
  pattern : Pattern
  deriving DecidableEq, Repr

namespace Part

/-- Tries what comes next after every run of allowed characters, the empty run first. -/
def afterRun (allowed : Char → Bool) (next : Text → Bool) : Text → Bool
  | [] => next []
  | c :: cs => next (c :: cs) || (allowed c && afterRun allowed next cs)

/-- Tries what comes next behind one allowed character. -/
def afterOne (allowed : Char → Bool) (next : Text → Bool) : Text → Bool
  | [] => false
  | c :: cs => allowed c && next cs

/-- Tries what comes next behind a slash. -/
def afterSlash (next : Text → Bool) : Text → Bool := afterOne (· == '/') next

/-- Whether nothing is left but perhaps one newline. -/
def atEnd (t : Text) : Bool := t = [] || t = ['\n']

/-- Whether the part matches at the start of a text so that what comes next matches the rest. -/
def run (next : Text → Bool) : Part → Text → Bool
  | .leadingFolders, t => next t || afterOne (· != '\n') (afterRun (· != '\n') (afterSlash next)) t
  | .innerFolders, t => next t || afterSlash (afterOne (· != '\n') (afterRun (· != '\n') next)) t
  | .slash, t => afterSlash next t
  | .name, t => afterOne (· != '/') (afterRun (· != '/') next) t
  | .atom (.literal c), t => afterOne (· == c) next t
  | .atom .anyChar, t => afterOne (· != '/') next t
  | .atom .anyRun, t => afterRun (· != '/') next t
  | .atom (.oneOf negated items), t => afterOne (fun c => items.any (·.has c) != negated) next t
  | .ending, t => afterSlash next t || (atEnd t && next t)

/-- Whether parts match one after another at the start of a text. -/
def runAll : List Part → Text → Bool
  | [], _ => true
  | part :: rest, t => part.run (runAll rest) t

end Part

namespace Segment

/-- The parts of one level. -/
def parts : Segment → List Part
  | .anyDepth => [.innerFolders]
  | .anyName => [.name]
  | .glob atoms => atoms.map .atom

/-- The parts of the levels from some level on; `inner` says that a level stands before them. -/
def partsFrom (inner : Bool) : List Segment → List Part
  | [] => []
  | [.anyDepth] => [.slash]
  | [segment] => (if inner then [.slash] else []) ++ segment.parts ++ [.ending]
  | .anyDepth :: rest => .innerFolders :: partsFrom true rest
  | segment :: rest => (if inner then [.slash] else []) ++ segment.parts ++ partsFrom true rest

end Segment

/-- What a path is searched for (pathspec's `pattern_to_regex`). The patterns that are all stars
need no start. -/
def Pattern.shape (p : Pattern) : Shape :=
  match p.segments with
  | [.anyDepth] => if p.folderOnly then .anySlash else .anyChar
  | [.anyDepth, .anyName] => .anyChar
  | [.anyDepth, .anyName, .anyDepth] => .anySlash
  | .anyDepth :: rest => .fromStart (.leadingFolders :: Segment.partsFrom false rest)
  | segments => .fromStart (Segment.partsFrom false segments)

end LessonPages
