import ParserRelay.Text.Basic
/-! UTF-8. Reading replaces each maximal part of a sequence that cannot be completed by one
U+FFFD, so every byte string has a text. -/
namespace ParserRelay.Text

def toUtf8 (t : Text) : Bytes := t.flatMap String.utf8EncodeChar

def replacement : Char := Char.ofNat 0xFFFD

/-- What the first byte of a sequence of several bytes fixes: how many continuation bytes follow,
between which bounds the first of these lies, and the high bits of the character. -/
structure Utf8Lead where
  rest : Nat
  low : UInt8
  high : UInt8
  bits : Nat

/-- The lead bytes; the bounds keep out overlong forms, surrogates and values above U+10FFFF. -/
def utf8Lead? (b : UInt8) : Option Utf8Lead :=
  if b < 0xC2 then none
  else if b < 0xE0 then some ⟨1, 0x80, 0xBF, b.toNat - 0xC0⟩
  else if b = 0xE0 then some ⟨2, 0xA0, 0xBF, 0⟩
  else if b = 0xED then some ⟨2, 0x80, 0x9F, 13⟩
  else if b < 0xF0 then some ⟨2, 0x80, 0xBF, b.toNat - 0xE0⟩
  else if b = 0xF0 then some ⟨3, 0x90, 0xBF, 0⟩
  else if b < 0xF4 then some ⟨3, 0x80, 0xBF, b.toNat - 0xF0⟩
  else if b = 0xF4 then some ⟨3, 0x80, 0x8F, 4⟩
  else none

/-- The character that the continuation bytes complete, unless the first wrong byte or the end stops
it, with the number of continuation bytes taken. -/
def utf8Continue (low high : UInt8) (bits taken : Nat) : Nat → Bytes → Option Char × Nat
  | 0, _ => (some (Char.ofNat bits), taken)
  | _ + 1, [] => (none, taken)
  | n + 1, b :: r =>
    if low ≤ b && b ≤ high then utf8Continue 0x80 0xBF (64 * bits + b.toNat % 64) (taken + 1) n r
    else (none, taken)

def utf8First (b : UInt8) (r : Bytes) : Option Char × Nat :=
  if b < 0x80 then (some (Char.ofNat b.toNat), 0)
  else match utf8Lead? b with
    | none => (none, 0)
    | some lead => utf8Continue lead.low lead.high lead.bits 0 lead.rest r

def ofUtf8Skip : Nat → Bytes → Text
  | _, [] => []
  | n + 1, _ :: r => ofUtf8Skip n r
  | 0, b :: r => match utf8First b r with
    | (c, taken) => c.getD replacement :: ofUtf8Skip taken r

def ofUtf8 (bytes : Bytes) : Text := ofUtf8Skip 0 bytes

end ParserRelay.Text
