/-!
# Decimal digits

Natural numbers as lists of decimal digits, in both directions.

* `length_digits_pos`: a number has at least one digit.
-/

namespace Bukvar.Decimal

/-- The value of a decimal digit. -/
def digit? (c : Char) : Option Nat :=
  if c.isDigit then some (c.toNat - '0'.toNat) else none

/-- The digits of a number, most significant first. -/
def digits (n : Nat) : List Char :=
  Nat.toDigits 10 n

/-- The number of digits that a number is written with. -/
def digitCount (n : Nat) : Nat :=
  (digits n).length

/-- The number that a list of digits denotes; the empty list denotes zero. -/
def ofDigits (ds : List Char) : Nat :=
  ds.foldl (fun n c => n * 10 + (digit? c).getD 0) 0

/-- A number as text. -/
def naturalText (n : Nat) : String :=
  String.ofList (digits n)

@[simp] theorem toList_naturalText (n : Nat) : (naturalText n).toList = digits n := by
  simp [naturalText]

theorem length_digits_pos (n : Nat) : 0 < (digits n).length :=
  Nat.length_toDigits_pos

end Bukvar.Decimal
