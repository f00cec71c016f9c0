import TerseStyle.Text.Alphanumeric
import TerseStyle.Text.CodePoint

/-!
# Character classes

The classes that decide where text may be cut. Blanks separate statements and words, line breaks
end lines, name characters form the names of classes, constants and variables. All of them range
over the whole of Unicode; the ASCII part of each is tested first and directly.
-/

namespace TerseStyle

/-- Characters that separate words: the ASCII blanks, the four information separators and the
Unicode spaces. The zero width space and the byte order mark are not blank. -/
def isBlank (c : CodePoint) : Bool :=
  let n := c.toNat
  (9 ≤ n && n ≤ 13) || (28 ≤ n && n ≤ 32) || n == 0x85 || n == 0xa0 || n == 0x1680 ||
    (0x2000 ≤ n && n ≤ 0x200a) || n == 0x2028 || n == 0x2029 || n == 0x202f || n == 0x205f ||
    n == 0x3000

/-- Characters that end a line. -/
def isLineBreak (c : CodePoint) : Bool :=
  let n := c.toNat
  (10 ≤ n && n ≤ 13) || (28 ≤ n && n ≤ 30) || n == 0x85 || n == 0x2028 || n == 0x2029

/-- ASCII letters. -/
def isLetter (c : CodePoint) : Bool :=
  let n := c.toNat
  (65 ≤ n && n ≤ 90) || (97 ≤ n && n ≤ 122)

/-- ASCII digits. -/
def isAsciiDigit (c : CodePoint) : Bool :=
  let n := c.toNat
  48 ≤ n && n ≤ 57

/-- Letters, digits and numerals of any script. -/
def isAlphanumeric (c : CodePoint) : Bool :=
  if c.toNat < 128 then isLetter c || isAsciiDigit c
  else Alphanumeric.runs.any fun run => run.1 ≤ c.toNat && c.toNat < run.1 + run.2

/-- Letters, digits, numerals and the underscore. -/
def isWordChar (c : CodePoint) : Bool :=
  isAlphanumeric c || c == '_'

/-- The characters of a name: word characters and the hyphen. -/
def isNameChar (c : CodePoint) : Bool :=
  isWordChar c || c == '-'

/-- The characters that may start an identifier. -/
def isIdentifierStart (c : CodePoint) : Bool :=
  isLetter c || c == '_'

/-- The characters of an ASCII identifier after its start. -/
def isAsciiNameChar (c : CodePoint) : Bool :=
  isLetter c || isAsciiDigit c || c == '_' || c == '-'

/-- The value of a decimal digit of any script. -/
def decimalValue? (c : CodePoint) : Option Nat :=
  (Alphanumeric.decimalZeros.find? fun first => first ≤ c.toNat && c.toNat ≤ first + 9).map
    (c.toNat - ·)

end TerseStyle
