import Bukvar.Decimal.Binary64
import Bukvar.Decimal.Integer

/-!
# Reading floating-point literals

A numeral is an optional sign followed by the word for infinity or for an undefined number,
in any case, or by digits with at most one point among them and an optional exponent.
`Numeral.parse?` takes a text apart by this grammar, and `Numeral.value` rounds what it
denotes to the nearest floating-point number.

* `isFinite_of_readDouble`: a literal that was read is finite.
-/

namespace Bukvar.Decimal

/-- The magnitude nearest to `digits * 10 ^ exponent`.

Far beyond the largest and below the smallest magnitude the answer is known from the
position of the first digit alone, so no exponent is too large to be raised. -/
def decimalMagnitude (digits : Nat) (exponent : Int) : Nat :=
  if digits = 0 then 0
  else if 310 < digitCount digits + exponent then Binary64.infinity
  else if digitCount digits + exponent < -330 then 0
  else Binary64.nearest (digits * Nat.pow 10 exponent.toNat) (Nat.pow 10 (-exponent).toNat)

theorem decimalMagnitude_le_infinity (digits : Nat) (exponent : Int) :
    decimalMagnitude digits exponent ≤ Binary64.infinity := by
  unfold decimalMagnitude
  split
  · exact Nat.zero_le _
  · split
    · exact Nat.le_refl _
    · split
      · exact Nat.zero_le _
      · exact Binary64.nearest_le_infinity _ _

/-- What the text of a floating-point number says, before any rounding. -/
inductive Numeral where
  | undefined
  | infinite
  /-- The number `digits * 10 ^ exponent`. -/
  | decimal (digits : Nat) (exponent : Int)
deriving DecidableEq

namespace Numeral

/-- The number that the digits of an exponent denote. Once it has reached 65536 further digits
are passed over, so an exponent stays below a million. -/
def exponentOfDigits (ds : List Char) : Nat :=
  ds.foldl (fun n c => if n < 0x10000 then n * 10 + (digit? c).getD 0 else n) 0

/-- The exponent after its mark: an optional sign and at least one digit, nothing behind. -/
def exponent? (cs : List Char) : Option Int :=
  let unsigned (ds : List Char) : Option Int :=
    if !ds.isEmpty && ds.all Char.isDigit then some (exponentOfDigits ds) else none
  match cs with
  | '-' :: ds => (unsigned ds).map (- ·)
  | '+' :: ds => unsigned ds
  | ds => unsigned ds

/-- The exponent that a text ends with, zero where there is none. -/
def tail? : List Char → Option Int
  | [] => some 0
  | c :: cs => if c = 'e' || c = 'E' then exponent? cs else none

/-- The digits before and behind the point, and what follows them. -/
def splitPoint (cs : List Char) : List Char × List Char × List Char :=
  let whole := cs.takeWhile Char.isDigit
  match cs.dropWhile Char.isDigit with
  | '.' :: rest => (whole, rest.takeWhile Char.isDigit, rest.dropWhile Char.isDigit)
  | rest => (whole, [], rest)

/-- Digits, at most one point, and an exponent. -/
def decimal? (cs : List Char) : Option Numeral :=
  let (whole, fraction, rest) := splitPoint cs
  if whole.isEmpty && fraction.isEmpty then none
  else (tail? rest).map fun exponent =>
    .decimal (ofDigits (whole ++ fraction)) (exponent - fraction.length)

/-- A numeral without its sign. -/
def unsigned? (cs : List Char) : Option Numeral :=
  let lower := cs.map Char.toLower
  if lower = "inf".toList || lower = "infinity".toList then some .infinite
  else if lower = "nan".toList then some .undefined
  else decimal? cs

/-- The sign and the rest of a numeral. -/
def parse? (cs : List Char) : Option (Bool × Numeral) :=
  match cs with
  | '-' :: rest => (unsigned? rest).map (true, ·)
  | '+' :: rest => (unsigned? rest).map (false, ·)
  | rest => (unsigned? rest).map (false, ·)

/-- The floating-point number nearest to what a numeral denotes. -/
def value (negative : Bool) : Numeral → Binary64
  | .undefined => .undefined
  | .infinite => .ofMagnitude negative Binary64.infinity (Nat.le_refl _)
  | .decimal digits exponent =>
    .ofMagnitude negative (decimalMagnitude digits exponent)
      (decimalMagnitude_le_infinity digits exponent)

end Numeral

/-- The value of a floating-point literal, which has to be finite. -/
def readDouble (text : String) : Except LiteralError Binary64 :=
  match Numeral.parse? text.toList with
  | none => .error .malformed
  | some (negative, numeral) =>
    if (numeral.value negative).isFinite then .ok (numeral.value negative)
    else .error .outOfRange

theorem isFinite_of_readDouble {text : String} {x : Binary64} (h : readDouble text = .ok x) :
    x.isFinite = true := by
  rw [readDouble] at h
  split at h
  · cases h
  · split at h
    next hf => exact Except.ok.inj h ▸ hf
    next => cases h

end Bukvar.Decimal
