import TerseStyle.Text.Quoted

/-!
# Text in files

Files hold text in UTF-8. On reading, every carriage return, with the line feed that may follow it,
counts as one line feed. Half of a pair has no bytes, so a text with one cannot be written as it is;
where that must not fail, the half is spelled out.
-/

namespace TerseStyle

namespace Text

/-- The text with every kind of line end written as a line feed. -/
def unifyLineEnds : Text → Text
  | [] => []
  | .char '\r' :: .char '\n' :: rest => .char '\n' :: unifyLineEnds rest
  | c :: rest => (if c = '\r' then '\n' else c) :: unifyLineEnds rest

/-- The text that the bytes of a file spell. -/
def decode? (bytes : ByteArray) : Option Text :=
  (String.fromUTF8? bytes).map fun string => unifyLineEnds (ofString string)

/-- The string of a text that consists of characters. -/
def string? (text : Text) : Option String :=
  (text.mapM CodePoint.char?).map String.ofList

/-- The bytes that spell a text. -/
def encode? (text : Text) : Option ByteArray :=
  (string? text).map String.toUTF8

/-- Whether a text has bytes. -/
def isEncodable (text : Text) : Bool :=
  (encode? text).isSome

/-- A code point as a text of characters: half of a pair is spelled with its number. -/
def spellHalf : CodePoint → List Char
  | .char c => [c]
  | .half index => ['\\', 'u'] ++ Nat.toDigits 16 (CodePoint.firstHalf + index.val)

/-- The text with its halves spelled out. -/
def spellHalves (text : Text) : List Char :=
  text.flatMap spellHalf

end Text

end TerseStyle
