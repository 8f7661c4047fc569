/-!
# Decimal numbers

Numbers that are written with a point, or with a power of ten. A `Decimal`
keeps its digits and the place of its point; zeros at its end have no
meaning, and a zero may have a minus sign.

There is always a digit on both sides of the point. A number that would
have more than sixteen digits before the point, or more than three zeros
between the point and the first other digit, is written as a number between
one and ten and the power of ten to multiply it by.
-/

namespace MonkeyFrontend

/-- A number that is written with a point. -/
structure Decimal where
  /-- Whether it has a minus sign. -/
  negative : Bool
  /-- Its digits, as a whole number. -/
  digits : Nat
  /-- How many of the digits stand after the point. -/
  places : Nat
deriving DecidableEq

namespace Decimal

/-- The value, counted in units of the last place. -/
def units (number : Decimal) : Int :=
  if number.negative then -number.digits else number.digits

/-- The digits without the zeros at their end. -/
def significant (number : Decimal) : List Char :=
  ((toString number.digits).toList.reverse.dropWhile (· == '0')).reverse

/-- How many digits stand before the point, counted from the first that is
not zero. It is negative if zeros follow the point. -/
def point (number : Decimal) : Int :=
  if number.digits = 0 then 1 else (toString number.digits).length - number.places

/-- Whether a number is written without a power of ten. -/
def isPositional (number : Decimal) : Bool :=
  decide (-4 < number.point) && decide (number.point ≤ 16)

/-- Digits with a point among them, before or after them. -/
def withPoint (digits : List Char) (point : Int) : List Char :=
  let whole := (digits ++ List.replicate point.toNat '0').take point.toNat
  let fraction := List.replicate (-point).toNat '0' ++ digits.drop point.toNat
  (if whole.isEmpty then ['0'] else whole) ++ '.' :: (if fraction.isEmpty then ['0'] else fraction)

/-- A power of ten, by an exponent of two digits at least. -/
def powerText (exponent : Int) : List Char :=
  let digits := (toString exponent.natAbs).toList
  'e' :: (if exponent < 0 then '-' else '+') :: List.replicate (2 - digits.length) '0' ++ digits

/-- Digits with a point after the first, and a power of ten. -/
def withPower (digits : List Char) (point : Int) : List Char :=
  digits.take 1 ++ (if digits.length ≤ 1 then [] else '.' :: digits.drop 1) ++
    powerText (point - 1)

/-- How a decimal number is written. -/
def text (number : Decimal) : String :=
  let sign := if number.negative then "-" else ""
  sign ++ String.ofList
    (if number.isPositional then withPoint number.significant number.point
      else withPower number.significant number.point)

end Decimal

end MonkeyFrontend
