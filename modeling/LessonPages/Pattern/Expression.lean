import LessonPages.Pattern.Basic

/-!
# Patterns as expressions

A pattern can be spelled as a search expression. The spelling serves to say where in a pattern a
fault lies: a range of characters that runs backwards is reported by its position in it.

* `Part.expression`, `Pattern.expression` — the spelling.
* `Pattern.badRange?` — the first range that runs backwards.
-/

namespace LessonPages

/-- The characters that are spelled with a backslash in front of them. -/
def escapedChars : List Char := "()[]\x7b\x7d?*+-|^$\\.&~# \t\n\r\x0b\x0c".toList

/-- A character that stands for itself. -/
def spellLiteral (c : Char) : Text := if c ∈ escapedChars then ['\\', c] else [c]

/-- A character inside a class; only the backslash is spelled with one more. -/
def spellClassChar (c : Char) : Text := if c = '\\' then ['\\', '\\'] else [c]

/-- The spelling of an item of a class. -/
def ClassItem.expression : ClassItem → Text
  | .one c => spellClassChar c
  | .range first last => spellClassChar first ++ '-' :: spellClassChar last

/-- How the spelling of a class starts. -/
def classStart (negated : Bool) : Text := if negated then ['[', '^'] else ['[']

/-- The spelling of a piece of a segment. -/
def Atom.expression : Atom → Text
  | .literal c => spellLiteral c
  | .anyChar => "[^/]".toList
  | .anyRun => "[^/]*".toList
  | .oneOf negated items => classStart negated ++ items.flatMap ClassItem.expression ++ [']']

/-- The spelling of a part. -/
def Part.expression : Part → Text
  | .leadingFolders => "(?:.+/)?".toList
  | .innerFolders => "(?:/.+)?".toList
  | .slash => ['/']
  | .name => "[^/]+".toList
  | .atom a => a.expression
  | .ending => "(?:(?P<ps_d>/)|$)".toList

/-- The spelling of a shape. -/
def Shape.expression : Shape → Text
  | .anyChar => ['.']
  | .anySlash => ['/']
  | .fromStart parts => '^' :: parts.flatMap Part.expression

/-- The spelling of a pattern (the expression that pathspec's `pattern_to_regex` gives). -/
def Pattern.expression (p : Pattern) : Text := p.shape.expression

/-- A range that runs backwards, and the position in the spelling at which it starts. -/
structure BadRange where
  first : Char
  last : Char
  position : Nat
  deriving DecidableEq, Repr

/-- The first range among items that runs backwards, when the items start at a position. -/
def ClassItem.badRange? (position : Nat) : List ClassItem → Option BadRange
  | [] => none
  | item :: rest =>
    match item with
    | .range first last =>
      if last < first then some ⟨first, last, position⟩
      else badRange? (position + item.expression.length) rest
    | .one _ => badRange? (position + item.expression.length) rest

/-- The first range among parts that runs backwards, when the parts start at a position. -/
def Part.badRange? (position : Nat) : List Part → Option BadRange
  | [] => none
  | part :: rest =>
    let here :=
      match part with
      | .atom (.oneOf negated items) =>
        ClassItem.badRange? (position + (classStart negated).length) items
      | _ => none
    here.or (badRange? (position + part.expression.length) rest)

/-- The first range of a pattern that runs backwards. -/
def Pattern.badRange? (p : Pattern) : Option BadRange :=
  match p.shape with
  | .fromStart parts => Part.badRange? 1 parts
  | .anyChar | .anySlash => none

end LessonPages
