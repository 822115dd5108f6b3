import LessonPages.Text.Blank

/-!
# Kinds of lines

What one line of a lesson says about the structure, whatever surrounds it. The test looks at the
two ends of the line only: a string literal that starts with a comment opener counts as one.

* `LineKind.of` — the kind of a line.
* `LineKind.cuts` — whether a line of this kind ends the code before it.
-/

namespace LessonPages

/-- The comment that asks for a link after the code around it (`PLAYGROUND_MARKER`). -/
def linkMarker : Text := "// @playground-link".toList

/-- What opens a block comment. -/
def commentOpener : Text := ['/', '*']

/-- What closes a block comment. -/
def commentCloser : Text := ['*', '/']

/-- What starts a comment that ends with its line. -/
def lineCommentMark : Text := ['/', '/']

/-- What a line says about the structure of the lesson (the branches of `step`). -/
inductive LineKind where
  /-- Asks for a link; the line itself is dropped. -/
  | marker
  /-- A comment that starts and ends on this line. -/
  | lineComment
  /-- Opens a block comment that a later line closes. -/
  | commentStart
  /-- Belongs to whatever it stands in. -/
  | plain
  deriving DecidableEq, Repr

namespace LineKind

/-- The kind of a line (the tests of `step`, in their order). A block comment may be indented; a
marker and a line comment may not. -/
def of (line : Text) : LineKind :=
  if linkMarker.isPrefixOf line then .marker
  else if (commentOpener.isPrefixOf line.strip && commentCloser.isSuffixOf line.strip)
      || lineCommentMark.isPrefixOf line then .lineComment
  else if commentOpener.isPrefixOf line.strip then .commentStart
  else .plain

/-- Whether a line of this kind ends the code before it (`step`, where it calls `flush_code`). -/
def cuts : LineKind → Bool
  | .lineComment | .commentStart => true
  | .marker | .plain => false

end LineKind

end LessonPages
