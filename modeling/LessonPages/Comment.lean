import LessonPages.LineKind

/-!
# Comments as prose

A comment line becomes prose when its markers are taken off. Four markers are looked for in
order, each at most once: an opener with one or two stars behind indentation, a closer with
blanks behind it, two slashes, a star.

* `Comment.dropOpener`, `Comment.dropCloser`, `Comment.dropSlashes`, `Comment.dropStar` — one
  marker each.
* `Comment.toProse` — all four in order.
-/

namespace LessonPages.Comment

/-- The blanks that may stand around the markers of a block comment. -/
def isIndent (c : Char) : Bool := c = ' ' || c = '\t'

/-- Takes an opener off the start, together with the indentation before it (`_COMMENT_MARKERS`, the
first). -/
def dropOpener (line : Text) : Text :=
  match line.dropWhile isIndent with
  | '/' :: '*' :: '*' :: rest => rest
  | '/' :: '*' :: rest => rest
  | _ => line

/-- What stays behind a closer at the very start of a text: nothing, or the newline that ends the
text. There is no closer if anything else follows than blanks. -/
def afterCloser? : Text → Option Text
  | '*' :: '/' :: rest =>
    match rest.dropWhile isIndent with
    | [] => some []
    | ['\n'] => some ['\n']
    | _ => none
  | _ => none

/-- Takes a closer off the end, together with the blanks behind it (`_COMMENT_MARKERS`, the second). -/
def dropCloser : Text → Text
  | [] => []
  | c :: cs =>
    match afterCloser? (c :: cs) with
    | some rest => rest
    | none => c :: dropCloser cs

/-- Takes two slashes off the start (`_COMMENT_MARKERS`, the third). -/
def dropSlashes : Text → Text
  | '/' :: '/' :: rest => rest
  | line => line

/-- Takes a star off the start (`_COMMENT_MARKERS`, the last). -/
def dropStar : Text → Text
  | '*' :: rest => rest
  | line => line

/-- A comment line without its markers (`strip_comment_markers`). What follows a marker is kept as
it is. -/
def toProse (line : Text) : Text := dropStar (dropSlashes (dropCloser (dropOpener line)))

theorem length_dropStar_le (line : Text) : (dropStar line).length ≤ line.length := by
  unfold dropStar; split <;> simp

end LessonPages.Comment
