import LessonPages.Pattern.Expression
import LessonPages.Text.Blank
import LessonPages.Text.Quoted

/-!
# Reading patterns

A line of an ignore file, or the pattern that chooses lessons, becomes a rule, or nothing, or a
fault.

* `Rule.ofLine` — the rule of a line.
* `Rule.ofLines` — the rules of a list of lines, or the first fault.
* `PatternFault.message` — the wording of a fault.
-/

namespace LessonPages

/-- Why a line is no pattern (`GitIgnorePatternError`, or the `error` of its expression). -/
inductive PatternFault where
  /-- The line has no segment, or a segment ends in a backslash. -/
  | malformed (line : Text)
  /-- A range runs backwards; `expression` is the spelling of the whole pattern. -/
  | badRange (range : BadRange) (expression : Text)
  deriving DecidableEq, Repr

/-- Where a position lies in a text of several lines: its line and its column, both from one. -/
def lineAndColumn (t : Text) (position : Nat) : Nat × Nat :=
  let before := t.take position
  (before.count '\n' + 1, (before.reverse.takeWhile (· != '\n')).length + 1)

/-- The fault in words. Line and column are told only where the pattern has several lines. -/
def PatternFault.message : PatternFault → Text
  | .malformed line => "Invalid git pattern: ".toList ++ line.quoted
  | .badRange range expression =>
    let (line, column) := lineAndColumn expression range.position
    "bad character range ".toList ++ spellClassChar range.first ++ ['-']
      ++ spellClassChar range.last ++ " at position ".toList ++ Text.ofNat range.position
      ++ if '\n' ∈ expression then
          " (line ".toList ++ Text.ofNat line ++ ", column ".toList ++ Text.ofNat column
            ++ ")".toList
        else []

/-- The items of a class, given by what stands between its brackets. A hyphen makes a range of its
two neighbours; at either end it stands for itself. -/
def ClassItem.ofBody : Text → List ClassItem
  | [] => []
  | [c] => [.one c]
  | [c, '-'] => [.one c, .one '-']
  | first :: '-' :: last :: rest => .range first last :: ofBody rest
  | c :: rest => .one c :: ofBody rest

/-- Why a segment has no pieces. -/
inductive GlobFault where
  /-- A bracket is never closed; such a line says nothing. -/
  | openClass
  /-- Nothing follows a backslash. -/
  | loneBackslash
  deriving DecidableEq, Repr

/-- Where the reading of a segment stands. -/
inductive GlobMode where
  | plain
  /-- Behind a backslash. -/
  | escaped
  /-- Right behind a bracket. -/
  | classOpened
  /-- Behind a bracket and the sign of negation. -/
  | classNegated
  /-- Inside a class with some characters; a bracket closes it from now on. -/
  | inClass (negated : Bool) (body : Text)
  deriving DecidableEq, Repr

/-- The pieces of a segment from some mode on (the glob of one segment in pathspec's
`gitwildmatch`). -/
def Atom.ofTextFrom : GlobMode → Text → Except GlobFault (List Atom)
  | .plain, [] => .ok []
  | .escaped, [] => .error .loneBackslash
  | .classOpened, [] => .error .openClass
  | .classNegated, [] => .error .openClass
  | .inClass _ _, [] => .error .openClass
  | .plain, c :: rest =>
    if c = '\\' then ofTextFrom .escaped rest
    else if c = '[' then ofTextFrom .classOpened rest
    else if c = '*' then (ofTextFrom .plain rest).map (.anyRun :: ·)
    else if c = '?' then (ofTextFrom .plain rest).map (.anyChar :: ·)
    else (ofTextFrom .plain rest).map (.literal c :: ·)
  | .escaped, c :: rest => (ofTextFrom .plain rest).map (.literal c :: ·)
  | .classOpened, c :: rest =>
    if c = '!' || c = '^' then ofTextFrom .classNegated rest
    else ofTextFrom (.inClass false [c]) rest
  | .classNegated, c :: rest => ofTextFrom (.inClass true [c]) rest
  | .inClass negated body, c :: rest =>
    if c = ']' then
      (ofTextFrom .plain rest).map (.oneOf negated (ClassItem.ofBody body) :: ·)
    else ofTextFrom (.inClass negated (body ++ [c])) rest

/-- Two stars: any number of levels. -/
def doubleStar : Text := ['*', '*']

/-- The level that a text between slashes describes. -/
def Segment.ofText (t : Text) : Except GlobFault Segment :=
  if t = doubleStar then .ok .anyDepth
  else if t = ['*'] then .ok .anyName
  else (Atom.ofTextFrom .plain t).map .glob

namespace Pattern

/-- Ties a pattern to the folder of its file: a slash at the start, or between two levels, does;
without one the pattern is meant at any depth. -/
def anchor : List Text → List Text
  | [] :: rest => rest
  | [level] => if level = doubleStar then [level] else [doubleStar, level]
  | [level, []] => if level = doubleStar then [level, []] else [doubleStar, level, []]
  | levels => levels

/-- An empty last level, which a slash at the end leaves, stands for everything below. -/
def openEnd : List Text → List Text
  | [] => []
  | [level] => if level = [] then [doubleStar] else [level]
  | level :: rest => level :: openEnd rest

/-- One double star in place of several in a row. -/
def mergeDepths : List Text → List Text
  | a :: b :: rest =>
    if a = doubleStar ∧ b = doubleStar then mergeDepths (b :: rest) else a :: mergeDepths (b :: rest)
  | levels => levels

/-- The levels that the text of a pattern names. -/
def levels (body : Text) : List Text := mergeDepths (openEnd (anchor (body.splitOn '/')))

end Pattern

namespace Rule

/-- A line without blanks at its end, unless a backslash keeps the last space. -/
def trimLine (line : Text) : Text :=
  if ['\\', ' '].isSuffixOf line then line else line.trimRight isBlank

/-- The rule whose text, behind an exclamation mark or not, is given; `line` is the line it stood
on. -/
def ofBody (line : Text) (selects : Bool) (body : Text) : Except PatternFault (Option Rule) :=
  let levels := Pattern.levels body
  if levels.isEmpty then .error (.malformed line)
  else
    match levels.mapM Segment.ofText with
    | .error .openClass => .ok none
    | .error .loneBackslash => .error (.malformed line)
    | .ok segments =>
      let pattern : Pattern := ⟨segments, body.getLast? = some '/'⟩
      match pattern.badRange? with
      | some range => .error (.badRange range pattern.expression)
      | none => .ok (some ⟨selects, pattern⟩)

/-- The rule of a line (pathspec's `gitwildmatch` pattern). Empty lines, comments and a lone slash
say nothing. -/
def ofLine (line : Text) : Except PatternFault (Option Rule) :=
  match trimLine line with
  | [] => .ok none
  | '#' :: _ => .ok none
  | ['/'] => .ok none
  | '!' :: body => ofBody line false body
  | body => ofBody line true body

/-- The rules of some lines in order, or the first fault (`PathSpec.from_lines`). -/
def ofLines : List Text → Except PatternFault (List Rule)
  | [] => .ok []
  | line :: rest =>
    match ofLine line with
    | .error e => .error e
    | .ok rule => (ofLines rest).map (rule.toList ++ ·)

end Rule

end LessonPages
