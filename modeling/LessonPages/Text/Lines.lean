import LessonPages.Text.Basic

/-!
# Lines

Three ways to see lines in a text.

* `Text.lines` — the lines of a lesson: only a newline ends a line, and a carriage return right
  before it belongs to the line's end. Other separators stay inside their line.
* `Text.unifyNewlines` — the text of a file as it is read: every line end becomes a newline.
* `Text.entryLines` — the lines of a list file, ended by any line separator of Unicode.
-/

namespace LessonPages.Text

/-- A line without one carriage return at its end. -/
def dropReturn (line : Text) : Text := if line.getLast? = some '\r' then line.dropLast else line

/-- Pieces of a text without an empty last one: a separator at the end starts no new piece. -/
def dropEmptyLast (pieces : List Text) : List Text :=
  if pieces.getLast? = some [] then pieces.dropLast else pieces

/-- The lines of a lesson (`split_lines`). -/
def lines (t : Text) : List Text := (dropEmptyLast (t.splitOn '\n')).map dropReturn

/-- A text in which each carriage return, with a newline after it or not, is one newline (`open`,
when it reads text). -/
def unifyNewlines : Text → Text
  | [] => []
  | '\r' :: '\n' :: rest => '\n' :: unifyNewlines rest
  | '\r' :: rest => '\n' :: unifyNewlines rest
  | c :: rest => c :: unifyNewlines rest

/-- The characters that end a line of a list file; carriage returns are unified before. -/
def lineBreakRanges : CharRanges :=
  [(0x0A, 0x0C), (0x1C, 0x1E), (0x85, 0x85), (0x2028, 0x2029)]

/-- The lines of a list file whose newlines are unified (`str.splitlines`). -/
def entryLines (t : Text) : List Text := dropEmptyLast (t.splitOnP lineBreakRanges.has)

@[simp] theorem lines_nil : lines [] = [] := rfl

end LessonPages.Text
