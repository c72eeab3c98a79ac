import LineGrammar.Text.Blank

/-! UTF-8. Encoding goes character by character; decoding accepts any bytes and puts the
replacement character in place of each longest beginning of a character that is not
continued, and of each byte that begins none. -/

namespace LineGrammar

abbrev Bytes := List UInt8

namespace Utf8

def encode (t : Text) : Bytes :=
  t.flatMap String.utf8EncodeChar

def replacement : Char :=
  Char.ofNat 0xFFFD

/-- A character whose first bytes are read: the bits so far, how many bytes it still needs, and
the bounds of the next one. -/
structure Unfinished where
  bits : Nat
  owed : Nat
  low : Nat
  high : Nat
deriving DecidableEq, Repr

/-- Reads a byte between characters. The bounds behind `E0`, `ED`, `F0` and `F4` leave out
overlong forms, surrogates and what lies beyond the last code point. -/
def leading (b : Nat) : Text × Option Unfinished :=
  if b < 0x80 then ([Char.ofNat b], none)
  else if b < 0xC2 then ([replacement], none)
  else if b < 0xE0 then ([], some ⟨b - 0xC0, 1, 0x80, 0xBF⟩)
  else if b = 0xE0 then ([], some ⟨0, 2, 0xA0, 0xBF⟩)
  else if b = 0xED then ([], some ⟨0xD, 2, 0x80, 0x9F⟩)
  else if b < 0xF0 then ([], some ⟨b - 0xE0, 2, 0x80, 0xBF⟩)
  else if b = 0xF0 then ([], some ⟨0, 3, 0x90, 0xBF⟩)
  else if b < 0xF4 then ([], some ⟨b - 0xF0, 3, 0x80, 0xBF⟩)
  else if b = 0xF4 then ([], some ⟨4, 3, 0x80, 0x8F⟩)
  else ([replacement], none)

/-- Reads a byte inside a character. One that is out of bounds ends it as a replacement and is
read again on its own. -/
def following (u : Unfinished) (b : Nat) : Text × Option Unfinished :=
  if u.low ≤ b ∧ b ≤ u.high then
    let bits := u.bits * 0x40 + (b - 0x80)
    if u.owed = 1 then ([Char.ofNat bits], none) else ([], some ⟨bits, u.owed - 1, 0x80, 0xBF⟩)
  else (replacement :: (leading b).1, (leading b).2)

def step : Option Unfinished → Nat → Text × Option Unfinished
  | none, b => leading b
  | some u, b => following u b

def decodeFrom : Option Unfinished → Bytes → Text
  | none, [] => []
  | some _, [] => [replacement]
  | state, b :: rest => (step state b.toNat).1 ++ decodeFrom (step state b.toNat).2 rest

def decode (bytes : Bytes) : Text :=
  decodeFrom none bytes

end Utf8

end LineGrammar
