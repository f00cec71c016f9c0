import TerseStyle.Text.Basic
import TerseStyle.Text.Invisible

/-!
# Quoted text

A text in quotation marks, with everything escaped that could not be read off the page: the mark
itself, backslashes, and characters without a visible form. Apostrophes are the marks, unless
the text holds an apostrophe and no double quotation mark.
-/

namespace TerseStyle

namespace Text

/-- Whether a character has no visible form. -/
def isInvisible (c : CodePoint) : Bool :=
  Invisible.runs.any fun run => run.1 ≤ c.toNat && c.toNat < run.1 + run.2

/-- A number in hexadecimal digits, with zeros up to a width. -/
def hexadecimal (width number : Nat) : Text :=
  let digits := Text.ofChars (Nat.toDigits 16 number)
  List.replicate (width - digits.length) (CodePoint.char '0') ++ digits

/-- A character as it stands between quotation marks. -/
def escape (mark c : CodePoint) : Text :=
  if c = mark ∨ c = '\\' then ['\\', c]
  else if c = '\n' then ['\\', 'n']
  else if c = '\r' then ['\\', 'r']
  else if c = '\t' then ['\\', 't']
  else if !isInvisible c then [c]
  else if c.toNat < 0x100 then "\\x" ++ hexadecimal 2 c.toNat
  else if c.toNat < 0x10000 then "\\u" ++ hexadecimal 4 c.toNat
  else "\\U" ++ hexadecimal 8 c.toNat

/-- The text in quotation marks. -/
def quote (text : Text) : Text :=
  let mark : CodePoint :=
    if CodePoint.char '\'' ∈ text ∧ CodePoint.char '"' ∉ text then '"' else '\''
  [mark] ++ text.flatMap (escape mark) ++ [mark]

end Text

end TerseStyle
