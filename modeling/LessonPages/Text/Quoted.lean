import LessonPages.Text.Printable

/-!
# Quoted texts

How a path or a pattern stands in a message: between quotes, with escapes for what would be
misread. Single quotes are used, unless the text has a single quote and no double quote.
-/

namespace LessonPages.Text

/-- The quote that a text is put between. -/
def quoteMark (t : Text) : Char := if t.contains '\'' && !t.contains '"' then '"' else '\''

/-- A character between quotes: backslashes, the quote itself and unprintable characters are
escaped, the latter by name or by the shortest of three hexadecimal forms. -/
def escape (quote c : Char) : Text :=
  if c = quote || c = '\\' then ['\\', c]
  else if c = '\t' then ['\\', 't']
  else if c = '\n' then ['\\', 'n']
  else if c = '\r' then ['\\', 'r']
  else if isPrintable c then [c]
  else if c.toNat < 0x100 then '\\' :: 'x' :: hex 2 c.toNat
  else if c.toNat < 0x10000 then '\\' :: 'u' :: hex 4 c.toNat
  else '\\' :: 'U' :: hex 8 c.toNat

/-- A text between quotes (`repr`). -/
def quoted (t : Text) : Text :=
  quoteMark t :: t.flatMap (escape (quoteMark t)) ++ [quoteMark t]

end LessonPages.Text
