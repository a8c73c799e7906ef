/-!
Received text as a list of glyphs.

A glyph is a character, or a place where the received bytes form none.  Text that is already a
`String` has only characters.  Bytes are read as UTF-8, one glyph for each character and one for
each longest run of bytes that starts a character without finishing it.  Readers that look inside
a text refuse a broken glyph; a reader that only skips a text may pass over it.
-/
namespace RobotDesk.Text

inductive Glyph where
  | char (c : Char)
  | broken
deriving DecidableEq, Repr, Inhabited

/-- The glyphs of a text. -/
def glyphs (s : String) : List Glyph := s.toList.map .char

@[simp] theorem glyphs_append (s t : String) : glyphs (s ++ t) = glyphs s ++ glyphs t := by
  simp [glyphs]

namespace Glyph

/-- How many bytes a glyph takes at least. -/
def size : Glyph → Nat
  | .char c => c.utf8Size
  | .broken => 1

/-- The character shown for a glyph; a broken one is shown as U+FFFD. -/
def shown : Glyph → Char
  | .char c => c
  | .broken => '\ufffd'

@[simp] theorem shown_char (c : Char) : (char c).shown = c := rfl

end Glyph

/-- A character whose first bytes have been read: how many more are owed, the range in which the
next one has to lie, and the bits read so far. -/
structure Unfinished where
  owed : Nat
  low : UInt8
  high : UInt8
  bits : Nat
deriving DecidableEq, Repr

/-- What a byte can be between two characters. -/
inductive Lead where
  | whole (c : Char)
  | opens (u : Unfinished)
  | none
deriving DecidableEq, Repr

/-- Second bytes are restricted after E0, ED, F0 and F4, so that every character has one spelling
and no surrogate has any. -/
def lead (b : UInt8) : Lead :=
  if b < 0x80 then .whole (Char.ofNat b.toNat)
  else if b < 0xc2 then .none
  else if b < 0xe0 then .opens ⟨1, 0x80, 0xbf, b.toNat - 0xc0⟩
  else if b = 0xe0 then .opens ⟨2, 0xa0, 0xbf, 0⟩
  else if b = 0xed then .opens ⟨2, 0x80, 0x9f, 0xd⟩
  else if b < 0xf0 then .opens ⟨2, 0x80, 0xbf, b.toNat - 0xe0⟩
  else if b = 0xf0 then .opens ⟨3, 0x90, 0xbf, 0⟩
  else if b < 0xf4 then .opens ⟨3, 0x80, 0xbf, b.toNat - 0xf0⟩
  else if b = 0xf4 then .opens ⟨3, 0x80, 0x8f, 4⟩
  else .none

/-- Reads bytes as UTF-8, inside an unfinished character or between two, behind the glyphs read
before, which stand in reverse order. -/
def readBytes (before : List Glyph) : Option Unfinished → List UInt8 → List Glyph
  | none, [] => before.reverse
  | some _, [] => (.broken :: before).reverse
  | none, b :: bs =>
    match lead b with
    | .whole c => readBytes (.char c :: before) none bs
    | .opens u => readBytes before (some u) bs
    | .none => readBytes (.broken :: before) none bs
  | some u, b :: bs =>
    if u.low ≤ b && b ≤ u.high then
      let bits := u.bits * 64 + (b.toNat - 0x80)
      if u.owed ≤ 1 then readBytes (.char (Char.ofNat bits) :: before) none bs
      else readBytes before (some ⟨u.owed - 1, 0x80, 0xbf, bits⟩) bs
    else
      match lead b with
      | .whole c => readBytes (.char c :: .broken :: before) none bs
      | .opens v => readBytes (.broken :: before) (some v) bs
      | .none => readBytes (.broken :: .broken :: before) none bs

/-- The glyphs of received bytes. -/
def ofBytes (bs : List UInt8) : List Glyph := readBytes [] none bs

/-- The text shown for received bytes, with U+FFFD for each broken glyph. -/
def shownBytes (bs : List UInt8) : String := String.ofList ((ofBytes bs).map Glyph.shown)

/-- The UTF-8 bytes of a text. -/
def utf8 (s : String) : List UInt8 := s.toList.flatMap String.utf8EncodeChar

end RobotDesk.Text
