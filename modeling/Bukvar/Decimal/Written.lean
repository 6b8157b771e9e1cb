import Bukvar.Decimal.Shortest

/-!
# Floating-point numbers as text

A finite number is written with the fewest digits that read back. From a ten-thousandth up
to ten to the sixteenth it is written out with a point and at least one digit behind it;
outside of that, with one digit before the point, no empty fraction, and a power of ten.
-/

namespace Bukvar.Decimal

/-- Positions of the point for which all digits are written out: the first digit is at most
the fourth behind the point, and at most sixteen digits stand before it. -/
def WrittenOut (position : Int) : Prop :=
  -3 ≤ position ∧ position ≤ 16

instance (position : Int) : Decidable (WrittenOut position) :=
  inferInstanceAs (Decidable (_ ∧ _))

/-- The digits of a number without the zeros at their end. -/
def significantDigits (n : Nat) : List Char :=
  ((digits n).reverse.dropWhile (· = '0')).reverse

/-- Digits around a point at the given position, padded with zeros on either side. -/
def layOut (ds : List Char) (position : Int) : List Char :=
  if position ≤ 0 then
    ['0', '.'] ++ List.replicate (-position).toNat '0' ++ ds
  else
    let whole := position.toNat
    let fraction := ds.drop whole
    ds.take whole ++ List.replicate (whole - ds.length) '0' ++ ['.'] ++
      (if fraction.isEmpty then ['0'] else fraction)

/-- Digits with the point behind the first one, and the power of ten. -/
def layOutPower (ds : List Char) (position : Int) : List Char :=
  let fraction := ds.drop 1
  ds.take 1 ++ (if fraction.isEmpty then [] else '.' :: fraction) ++
    ['e'] ++ (integerText (position - 1)).toList

/-- A positive decimal as text. -/
def Scientific.written (s : Scientific) : List Char :=
  let ds := significantDigits s.digits
  if WrittenOut s.position then layOut ds s.position else layOutPower ds s.position

/-- A floating-point number as text. -/
def Binary64.text (x : Binary64) : String :=
  if infinity < x.magnitude then "NaN"
  else
    let unsigned :=
      if x.magnitude = infinity then "inf"
      else if x.magnitude = 0 then "0.0"
      else String.ofList (shortest x.magnitude).written
    if x.negative then "-" ++ unsigned else unsigned

end Bukvar.Decimal
