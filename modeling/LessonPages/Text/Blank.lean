import LessonPages.Text.Basic

/-!
# Blank characters

Spaces, tabs, line separators and the other white space of Unicode, together with the four
information separators. `Text.strip` takes them off both ends of a text; a line is blank when
nothing is left of it.
-/

namespace LessonPages

/-- The blank characters. Zero-width spaces and the byte order mark are not among them. -/
def blankRanges : CharRanges :=
  [(0x09, 0x0D), (0x1C, 0x20), (0x85, 0x85), (0xA0, 0xA0), (0x1680, 0x1680), (0x2000, 0x200A),
   (0x2028, 0x2029), (0x202F, 0x202F), (0x205F, 0x205F), (0x3000, 0x3000)]

/-- Whether a character is blank. -/
def isBlank (c : Char) : Bool := blankRanges.has c

namespace Text

/-- A text without the blank characters at its two ends (`str.strip`). -/
def strip (t : Text) : Text := trimRight isBlank (t.dropWhile isBlank)

/-- Whether a text has a character that is not blank (`_has_content`, for one line). -/
def hasContent (t : Text) : Bool := t.any fun c => !isBlank c

end Text

end LessonPages
