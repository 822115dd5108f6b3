import LessonPages.Text.Basic

/-!
# UTF-16 units

Editors in a browser count a text in 16-bit units: a character up to U+FFFF is one unit, a
character above it is a high surrogate followed by a low one.

* `Units.ofText`, `Units.toText?` — a text as its units, and the text of units in which
  surrogates stand only in such pairs.
-/

namespace LessonPages.Units

/-- The one or two units of a character. -/
def ofChar (c : Char) : List UInt16 :=
  if c.toNat < 0x10000 then [UInt16.ofNat c.toNat]
  else
    let v := c.toNat - 0x10000
    [UInt16.ofNat (0xD800 + v / 0x400), UInt16.ofNat (0xDC00 + v % 0x400)]

/-- The units of a text (`to_utf16_units`). -/
def ofText (t : Text) : List UInt16 := t.flatMap ofChar

/-- Whether a unit is the first half of a pair. -/
def isHigh (u : UInt16) : Bool := 0xD800 ≤ u && u ≤ 0xDBFF

/-- Whether a unit is the second half of a pair. -/
def isLow (u : UInt16) : Bool := 0xDC00 ≤ u && u ≤ 0xDFFF

/-- The character of a pair of surrogates. -/
def joinPair (high low : UInt16) : Char :=
  Char.ofNat (0x10000 + (high.toNat - 0xD800) * 0x400 + (low.toNat - 0xDC00))

/-- The text of units, unless a surrogate stands outside a pair. -/
def toText? : List UInt16 → Option Text
  | [] => some []
  | [u] => if isHigh u || isLow u then none else some [Char.ofNat u.toNat]
  | u :: v :: rest =>
    if isHigh u then
      if isLow v then (toText? rest).map (joinPair u v :: ·) else none
    else if isLow u then none
    else (toText? (v :: rest)).map (Char.ofNat u.toNat :: ·)

@[simp] theorem ofText_nil : ofText [] = [] := rfl

@[simp] theorem ofText_append (s t : Text) : ofText (s ++ t) = ofText s ++ ofText t := by
  simp [ofText]

end LessonPages.Units
