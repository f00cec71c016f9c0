/-!
# Code points

The units that text is made of. Nearly all of them are characters. The exceptions are halves: a
character beyond U+FFFF can be spelled as a pair of sixteen-bit numbers, and a document may hold
half of such a pair without the other. A half belongs to no class of characters and has no bytes of
its own, so a text with a half in it can be compiled but not written to a file.
-/

namespace TerseStyle

/-- A character, or half of a pair that stands alone. -/
inductive CodePoint where
  | char (c : Char)
  /-- The half of the given index, counted from U+D800. -/
  | half (index : Fin 2048)
  deriving Repr, DecidableEq

namespace CodePoint

instance : Coe Char CodePoint := ⟨char⟩

/-- The first of the numbers that are halves. -/
def firstHalf : Nat := 0xd800

/-- The number of a code point. -/
def toNat : CodePoint → Nat
  | char c => c.toNat
  | half index => firstHalf + index.val

/-- The code point of a number; a number that is none gives the null character. -/
def ofNat (number : Nat) : CodePoint :=
  if inRange : number - firstHalf < 2048 ∧ firstHalf ≤ number then
    half ⟨number - firstHalf, inRange.1⟩
  else char (Char.ofNat number)

/-- The character of a code point that is one. -/
def char? : CodePoint → Option Char
  | char c => some c
  | half _ => none

/-- Code points are ordered by number. -/
instance : LT CodePoint := ⟨fun left right => left.toNat < right.toNat⟩

instance (left right : CodePoint) : Decidable (left < right) :=
  inferInstanceAs (Decidable (left.toNat < right.toNat))

end CodePoint

end TerseStyle
