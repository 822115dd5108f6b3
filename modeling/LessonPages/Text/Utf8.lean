import LessonPages.Text.Basic

/-!
# UTF-8

Texts as bytes and back. Encoding never fails. Decoding reads one byte at a time and stops at the
first byte that no text has at its place; `Utf8.Fault` says which bytes are at fault and why.

* `Utf8.encode`, `Utf8.decode` — a text as its bytes, bytes as a text or the first fault.
* `Utf8.Fault.message` — the wording of a fault.
-/

namespace LessonPages.Utf8

/-- The bytes of a file. -/
abbrev Bytes := List UInt8

/-- The bytes of a character: one to four of them. -/
def encodeChar (c : Char) : Bytes :=
  let n := c.toNat
  if n < 0x80 then [UInt8.ofNat n]
  else if n < 0x800 then [UInt8.ofNat (0xC0 + n / 0x40), UInt8.ofNat (0x80 + n % 0x40)]
  else if n < 0x10000 then
    [UInt8.ofNat (0xE0 + n / 0x1000), UInt8.ofNat (0x80 + n / 0x40 % 0x40),
     UInt8.ofNat (0x80 + n % 0x40)]
  else
    [UInt8.ofNat (0xF0 + n / 0x40000), UInt8.ofNat (0x80 + n / 0x1000 % 0x40),
     UInt8.ofNat (0x80 + n / 0x40 % 0x40), UInt8.ofNat (0x80 + n % 0x40)]

/-- The bytes of a text (`str.encode`). -/
def encode (t : Text) : Bytes := t.flatMap encodeChar

/-- Why bytes are no text. -/
inductive Reason where
  /-- No character starts with this byte. -/
  | invalidStart
  /-- The next byte does not continue the character that was started. -/
  | invalidContinuation
  /-- The bytes end inside a character. -/
  | unexpectedEnd
  deriving DecidableEq, Repr

/-- The bytes at fault: the first of them, its position, how many they are, and the reason. -/
structure Fault where
  first : UInt8
  position : Nat
  count : Nat
  reason : Reason
  deriving DecidableEq, Repr

/-- A character of which some bytes are read: those, the value of their payload, how many bytes
are owed, and the bounds of the next one. -/
structure Pending where
  first : UInt8
  taken : Nat
  value : Nat
  owed : Nat
  low : UInt8
  high : UInt8
  deriving DecidableEq, Repr

/-- What the first byte of a longer character announces. The tighter bounds after four of the
first bytes keep out overlong forms, surrogates and values above the last code point. -/
def Pending.start? (b : UInt8) : Option Pending :=
  if b < 0xC2 then none
  else if b < 0xE0 then some ⟨b, 1, b.toNat - 0xC0, 1, 0x80, 0xBF⟩
  else if b < 0xF0 then
    some ⟨b, 1, b.toNat - 0xE0, 2, if b = 0xE0 then 0xA0 else 0x80, if b = 0xED then 0x9F else 0xBF⟩
  else if b < 0xF5 then
    some ⟨b, 1, b.toNat - 0xF0, 3, if b = 0xF0 then 0x90 else 0x80, if b = 0xF4 then 0x8F else 0xBF⟩
  else none

/-- The pending character after one more byte. -/
def Pending.next (p : Pending) (b : UInt8) : Pending :=
  { p with
    taken := p.taken + 1
    value := p.value * 0x40 + (b.toNat - 0x80)
    owed := p.owed - 1
    low := 0x80
    high := 0xBF }

/-- The fault of a pending character that ends before `position`. -/
def Pending.fault (p : Pending) (position : Nat) (reason : Reason) : Fault :=
  ⟨p.first, position - p.taken, p.taken, reason⟩

/-- Decodes bytes that start at a position, between characters or inside one. -/
def decodeFrom (position : Nat) : Option Pending → Bytes → Except Fault Text
  | none, [] => .ok []
  | some p, [] => .error (p.fault position .unexpectedEnd)
  | none, b :: bs =>
    if b < 0x80 then (decodeFrom (position + 1) none bs).map (Char.ofNat b.toNat :: ·)
    else match Pending.start? b with
      | none => .error ⟨b, position, 1, .invalidStart⟩
      | some p => decodeFrom (position + 1) (some p) bs
  | some p, b :: bs =>
    if p.low ≤ b ∧ b ≤ p.high then
      if p.owed = 1 then
        (decodeFrom (position + 1) none bs).map (Char.ofNat (p.next b).value :: ·)
      else decodeFrom (position + 1) (some (p.next b)) bs
    else .error (p.fault position .invalidContinuation)

/-- The text that bytes encode, or the first fault (`bytes.decode`). -/
def decode (bs : Bytes) : Except Fault Text := decodeFrom 0 none bs

/-- The reason in words. -/
def Reason.message : Reason → Text
  | .invalidStart => "invalid start byte".toList
  | .invalidContinuation => "invalid continuation byte".toList
  | .unexpectedEnd => "unexpected end of data".toList

/-- The fault in words (`UnicodeDecodeError`): one byte is shown, more are given by their positions. -/
def Fault.message (f : Fault) : Text :=
  let place :=
    if f.count = 1 then
      "byte 0x".toList ++ Text.hex 2 f.first.toNat ++ " in position ".toList
        ++ Text.ofNat f.position
    else
      "bytes in position ".toList ++ Text.ofNat f.position ++ "-".toList
        ++ Text.ofNat (f.position + f.count - 1)
  "'utf-8' codec can't decode ".toList ++ place ++ ": ".toList ++ f.reason.message

@[simp] theorem encode_append (s t : Text) : encode (s ++ t) = encode s ++ encode t := by
  simp [encode]

end LessonPages.Utf8
