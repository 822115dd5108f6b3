/-!
# Texts

A text is the list of its characters. Lines, paths, patterns and pages are all texts, read and
built by recursion on the list; `String` appears only in literals and at the outer edge.

* `Text.ofNat`, `Text.hex` — numbers as they are written in messages.
* `Text.joinLines` — lines put together with newlines between them.
* `Text.trimRight` — a text without the characters of a class at its end.
-/

namespace LessonPages

/-- A text is the list of its characters. -/
abbrev Text := List Char

namespace Text

/-- The decimal digits of a number, without leading zeros. -/
def ofNat (n : Nat) : Text := Nat.toDigits 10 n

/-- The lowercase hexadecimal digits of a number, with zeros in front up to a given width. -/
def hex (width n : Nat) : Text := (Nat.toDigits 16 n).leftpad width '0'

/-- The lines of a page put together (`"\n".join`): a newline stands between two lines, none at the
end. -/
def joinLines (lines : List Text) : Text := ['\n'].intercalate lines

/-- Every occurrence of one character exchanged for another (`str.replace`). -/
def replaceChar (old new : Char) (t : Text) : Text := t.map fun c => if c = old then new else c

/-- A text without the longest run at its end whose characters all satisfy `p`. -/
def trimRight (p : Char → Bool) (t : Text) : Text := (t.reverse.dropWhile p).reverse

theorem not_mem_replaceChar {old new : Char} (h : new ≠ old) (t : Text) :
    old ∉ replaceChar old new t := by
  simp only [replaceChar, List.mem_map, not_exists, not_and]
  intro c _
  split <;> simp_all

end Text

/-- Characters given by ranges of code points, ends included. -/
abbrev CharRanges := List (Nat × Nat)

/-- Whether a character lies in one of the ranges. -/
def CharRanges.has (ranges : CharRanges) (c : Char) : Bool :=
  ranges.any fun r => r.1 ≤ c.toNat && c.toNat ≤ r.2

end LessonPages
