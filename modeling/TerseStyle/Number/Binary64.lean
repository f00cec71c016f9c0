import TerseStyle.Text.Basic

/-!
# Binary floating point numbers

Numbers with a significand of at most fifty-three bits and a power of two, as most programs keep
decimal fractions. A decimal is rounded to the nearest such number, a half to the even significand,
and written again with the fewest digits that read back as the same number. All arithmetic is on
natural numbers and exact.
-/

namespace TerseStyle

/-- A binary floating point number. -/
inductive Binary64 where
  /-- The significand times the power of two. -/
  | finite (negative : Bool) (significand : Nat) (power : Int)
  | infinite (negative : Bool)
  | notANumber
  deriving Repr, DecidableEq

namespace Binary64

/-- The quotient rounded to the nearest natural number, a half to the even one. -/
def roundDivide (numerator denominator : Nat) : Nat :=
  let quotient := numerator / denominator
  let twice := 2 * (numerator % denominator)
  if twice < denominator then quotient
  else if denominator < twice then quotient + 1
  else quotient + quotient % 2

/-- Numerator and denominator of a fraction times a power of a base. -/
def scale (numerator denominator base : Nat) (power : Int) : Nat × Nat :=
  if 0 ≤ power then (numerator * Nat.pow base power.toNat, denominator)
  else (numerator, denominator * Nat.pow base (-power).toNat)

/-- Numerator and denominator of a finite number. -/
def fraction? : Binary64 → Option (Int × Nat)
  | finite negative significand power =>
    let (numerator, denominator) := scale significand 1 2 power
    some (if negative then -(numerator : Int) else numerator, denominator)
  | infinite _ | notANumber => none

/-- The least significand of fifty-three bits. -/
def leastFull : Nat := 4503599627370496

/-- The least power of two of a number. -/
def leastPower : Int := -1074

/-- The greatest power of two of a number. -/
def greatestPower : Int := 971

/-- The number nearest to a positive fraction. -/
def ofFraction (negative : Bool) (numerator denominator : Nat) : Binary64 :=
  let magnitude : Int := (Nat.log2 numerator : Int) - Nat.log2 denominator
  let (scaledNumerator, scaledDenominator) := scale numerator denominator 2 (53 - magnitude)
  let fits := decide (scaledNumerator / scaledDenominator < 2 * leastFull)
  let power := max leastPower (if fits then magnitude - 53 else magnitude - 52)
  let (scaledNumerator, scaledDenominator) := scale numerator denominator 2 (-power)
  let significand := roundDivide scaledNumerator scaledDenominator
  let (significand, power) :=
    if significand = 2 * leastFull then (leastFull, power + 1) else (significand, power)
  if greatestPower < power then .infinite negative else .finite negative significand power

/-- The number nearest to a decimal: digits times a power of ten. Decimals far beyond the range are
not computed. -/
def ofDecimal (negative : Bool) (digits : Nat) (power : Int) : Binary64 :=
  let magnitude : Int := (Nat.toDigits 10 digits).length + power
  if digits = 0 ∨ magnitude < -330 then .finite negative 0 leastPower
  else if 310 < magnitude then .infinite negative
  else
    let (numerator, denominator) := scale digits 1 10 power
    ofFraction negative numerator denominator

/-- The power of ten just above a positive fraction. -/
def decimalMagnitude (numerator denominator : Nat) : Int :=
  if denominator ≤ numerator then (Nat.toDigits 10 (numerator / denominator)).length
  else
    let rec below (steps : Nat) (numerator : Nat) (magnitude : Int) : Int :=
      match steps with
      | 0 => magnitude
      | steps + 1 =>
        if denominator ≤ 10 * numerator then magnitude
        else below steps (10 * numerator) (magnitude - 1)
    below 400 numerator 0

/-- A decimal with the given count of digits that reads back as the number, the nearest if there are
two. The number is four times the significand, in units of the power less two. -/
def shortestWith? (significand : Nat) (power : Int) (magnitude : Int) (count : Nat) :
    Option (Nat × Int) :=
  let unit := magnitude - count
  let center := 4 * significand
  let lower := if significand = leastFull ∧ leastPower < power then center - 1 else center - 2
  let upper := center + 2
  let (numerator, denominator) := scale 1 1 2 (power - 2)
  let (unitNumerator, unitDenominator) := scale 1 1 10 unit
  let quarters := fun digits => (digits * unitNumerator * denominator, unitDenominator * numerator)
  let down := center * numerator * unitDenominator / (denominator * unitNumerator)
  let reads := fun digits =>
    let (value, one) := quarters digits
    if significand % 2 = 0 then lower * one ≤ value && value ≤ upper * one
    else decide (lower * one < value) && decide (value < upper * one)
  let distanceDown := center * (quarters down).2 - (quarters down).1
  let distanceUp := (quarters (down + 1)).1 - center * (quarters (down + 1)).2
  match reads down, reads (down + 1) with
  | true, true =>
    if distanceDown < distanceUp ∨ (distanceDown = distanceUp ∧ down % 2 = 0) then some (down, unit)
    else some (down + 1, unit)
  | true, false => some (down, unit)
  | false, true => some (down + 1, unit)
  | false, false => none

/-- The decimal with the fewest digits that reads back as the number: digits and a power of ten. -/
def shortest (significand : Nat) (power : Int) : Nat × Int :=
  let (numerator, denominator) := scale significand 1 2 power
  let magnitude := decimalMagnitude numerator denominator
  ((List.range' 1 17).findSome? (shortestWith? significand power magnitude)).getD (0, 0)

/-- Digits without the zeros at their end. -/
def trimZeros (digits : Text) : Text :=
  (digits.reverse.dropWhile (· == CodePoint.char '0')).reverse

/-- A decimal as it is written: digits times a power of ten, with a point and at least one digit on
either side of it, or with an exponent of at least two digits if the point would stand far from the
digits. -/
def renderDecimal (digits : Nat) (power : Int) : Text :=
  let all := Text.ofNat digits
  let point : Int := all.length + power
  let shown := trimZeros all
  if point ≤ -4 ∨ 16 < point then
    let exponent := point - 1
    let exponentDigits := Text.ofNat exponent.natAbs
    let fraction := if shown.length ≤ 1 then [] else .char '.' :: shown.drop 1
    let mark : Text := if exponent < 0 then "e-" else "e+"
    shown.take 1 ++ fraction ++ mark ++
      List.replicate (2 - exponentDigits.length) (CodePoint.char '0') ++ exponentDigits
  else if point ≤ 0 then "0." ++ List.replicate (-point).toNat (CodePoint.char '0') ++ shown
  else
    let whole := point.toNat
    let padded := shown ++ List.replicate (whole - shown.length) (CodePoint.char '0')
    let fraction := padded.drop whole
    padded.take whole ++ "." ++ (if fraction.isEmpty then [.char '0'] else fraction)

/-- The number as it is written. -/
def render : Binary64 → Text
  | notANumber => "nan"
  | infinite negative => (if negative then "-inf" else "inf")
  | finite negative significand power =>
    let sign : Text := if negative then "-" else []
    if significand = 0 then sign ++ "0.0"
    else
      let (digits, unit) := shortest significand power
      sign ++ renderDecimal digits unit

end Binary64

end TerseStyle
