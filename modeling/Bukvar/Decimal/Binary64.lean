/-!
# Binary floating point of sixty-four bits

A number is a sign and a magnitude of sixty-three bits: eleven bits of exponent above
fifty-two bits of fraction. Every finite number is a whole multiple of 2⁻¹⁰⁷⁴, and `units`
is that multiple, so the exact value of a finite magnitude is `units m / unitsInOne`.
`nearest` goes the other way: it rounds a fraction of natural numbers to a magnitude, a
tie going to the even neighbour.

* `ofBits_toBits`: a number is determined by its bits.
* `nearest_le_infinity`: rounding never yields an undefined number.
-/

namespace Bukvar.Decimal

/-- A floating-point number, given by its sign and the bits below the sign. -/
structure Binary64 where
  negative : Bool
  magnitude : Nat
  magnitude_lt : magnitude < 0x8000000000000000
deriving DecidableEq

namespace Binary64

/-- The magnitude of infinity; larger ones are not numbers. -/
def infinity : Nat := 0x7ff0000000000000

/-- The number of fractions that share one exponent. -/
def fractions : Nat := 0x10000000000000

/-- The number with the given bits, of which the lowest sixty-four count. -/
def ofBits (bits : Nat) : Binary64 where
  negative := bits / 0x8000000000000000 % 2 = 1
  magnitude := bits % 0x8000000000000000
  magnitude_lt := Nat.mod_lt _ (by decide)

/-- The bits of a number, the sign on top. -/
def toBits (x : Binary64) : Nat :=
  (if x.negative then 0x8000000000000000 else 0) + x.magnitude

/-- Whether the number is neither infinite nor undefined. -/
def isFinite (x : Binary64) : Bool :=
  x.magnitude < infinity

/-- The number one, counted in units of 2⁻¹⁰⁷⁴. -/
def unitsInOne : Nat :=
  Nat.pow 2 1074

/-- The exact value of a finite magnitude, counted in units of 2⁻¹⁰⁷⁴. -/
def units (magnitude : Nat) : Nat :=
  let exponent := magnitude / fractions
  let fraction := magnitude % fractions
  if exponent = 0 then fraction else (fractions + fraction) * Nat.pow 2 (exponent - 1)

/-- A quotient rounded to the nearest natural number, a tie to the even one. -/
def roundHalfEven (num den : Nat) : Nat :=
  let quotient := num / den
  let rest := num % den
  if 2 * rest < den then quotient
  else if den < 2 * rest then quotient + 1
  else if quotient % 2 = 0 then quotient
  else quotient + 1

/-- The magnitude nearest to a fraction, and infinity for what lies beyond all others.

The fraction is counted in units of 2⁻¹⁰⁷⁴ and shifted so that fifty-three bits remain
above the point. The magnitudes of two neighbouring numbers differ by one, also across a
power of two, so a carry out of the rounding needs no care. -/
def nearest (num den : Nat) : Nat :=
  let scaled := num * unitsInOne
  let shift := (scaled / den).log2 - 52
  min infinity (shift * fractions + roundHalfEven scaled (den * Nat.pow 2 shift))

theorem nearest_le_infinity (num den : Nat) : nearest num den ≤ infinity :=
  Nat.min_le_left _ _

/-- A number from its sign and a magnitude that is infinity at most. -/
def ofMagnitude (negative : Bool) (magnitude : Nat) (h : magnitude ≤ infinity) : Binary64 where
  negative := negative
  magnitude := magnitude
  magnitude_lt := Nat.lt_of_le_of_lt h (by decide)

/-- The result of an operation without a value. -/
def undefined : Binary64 where
  negative := false
  magnitude := 0x7ff8000000000000
  magnitude_lt := by decide

theorem toBits_lt (x : Binary64) : x.toBits < 0x10000000000000000 := by
  have := x.magnitude_lt
  unfold toBits
  split <;> omega

theorem ofBits_toBits (x : Binary64) : ofBits x.toBits = x := by
  have hm := x.magnitude_lt
  obtain ⟨negative, magnitude, _⟩ := x
  simp only [ofBits, toBits, mk.injEq]
  cases negative
  · simp only [Bool.false_eq_true, if_false, Nat.zero_add]
    constructor
    · rw [Nat.div_eq_of_lt hm]
      rfl
    · exact Nat.mod_eq_of_lt hm
  · simp only [if_true]
    constructor
    · rw [Nat.add_div_left _ (by decide), Nat.div_eq_of_lt hm]
      rfl
    · rw [Nat.add_mod_left, Nat.mod_eq_of_lt hm]

end Binary64

end Bukvar.Decimal
