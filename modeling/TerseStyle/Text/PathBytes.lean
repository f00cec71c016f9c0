import TerseStyle.Text.Basic

/-!
# Paths as bytes

The names of files are bytes, and nothing says that they spell characters. In a text, a byte from
128 on that belongs to no character is written as the half U+DC80 or one of those after it, so that
no name is lost. Other halves have no byte. Two texts with the same bytes name the same file, which
is listed under the text that has a character wherever the bytes spell one.
-/

namespace TerseStyle

namespace Text

/-- The bytes of a code point in a path. -/
def pathBytesOf? : CodePoint → Option (List UInt8)
  | .char c => some (String.utf8EncodeChar c)
  | .half index =>
    if 0x480 ≤ index.val ∧ index.val < 0x500 then some [UInt8.ofNat (index.val - 0x400)] else none

/-- The bytes of a path. -/
def pathBytes? (path : Text) : Option (List UInt8) :=
  (path.mapM pathBytesOf?).map List.flatten

/-- The half that a byte without a character is written as. -/
def ofByte (byte : UInt8) : CodePoint :=
  .ofNat (CodePoint.firstHalf + 0x400 + byte.toNat)

/-- The character at the beginning of bytes. -/
def charOfBytes? (bytes : List UInt8) : Option Char :=
  (bytes.take 4).toByteArray.utf8DecodeChar? 0

/-- The text of bytes, after some that are skipped. Where no character begins, `lost` gives what is
written and how many more bytes belong to it. -/
def ofBytesAfter (lost : UInt8 → List UInt8 → CodePoint × Nat) : Nat → List UInt8 → Text
  | _, [] => []
  | skip + 1, _ :: rest => ofBytesAfter lost skip rest
  | 0, byte :: rest =>
    match charOfBytes? (byte :: rest) with
    | some c => c :: ofBytesAfter lost (c.utf8Size - 1) rest
    | none =>
      let (written, more) := lost byte rest
      written :: ofBytesAfter lost more rest

/-- The name under which a file is listed. -/
def fileName (name : Text) : Text :=
  match pathBytes? name with
  | some bytes => ofBytesAfter (fun byte _ => (ofByte byte, 0)) 0 bytes
  | none => name

/-- The ranges of the bytes that may follow the first byte of a character. -/
def followers (byte : UInt8) : List (UInt8 × UInt8) :=
  if byte < 0xc2 ∨ 0xf4 < byte then []
  else if byte < 0xe0 then [(0x80, 0xbf)]
  else if byte < 0xf0 then
    [(if byte = 0xe0 then 0xa0 else 0x80, if byte = 0xed then 0x9f else 0xbf), (0x80, 0xbf)]
  else
    [(if byte = 0xf0 then 0x90 else 0x80, if byte = 0xf4 then 0x8f else 0xbf), (0x80, 0xbf),
      (0x80, 0xbf)]

/-- How many bytes from the first on lie in the ranges, each in its own. -/
def countWithin : List (UInt8 × UInt8) → List UInt8 → Nat
  | (low, high) :: ranges, byte :: rest =>
    if low ≤ byte ∧ byte ≤ high then countWithin ranges rest + 1 else 0
  | _, _ => 0

/-- A path as it is shown in a message: what spells no character, be it the beginning of one, gives
way to U+FFFD. -/
def shownPath (path : Text) : Text :=
  match pathBytes? path with
  | some bytes =>
    ofBytesAfter (fun byte rest => ('�', countWithin (followers byte) rest)) 0 bytes
  | none => path

end Text

end TerseStyle
