import Bukvar.Decimal.Reader

/-!
# The shortest decimal that reads back

For a finite magnitude `shortest` gives the decimal with the fewest digits that is read as
this magnitude again, and of two such decimals the nearer, a tie going to the larger one.
With one digit, two digits and so on, it looks at the two neighbours of the exact value on
the grid of that many digits; the value itself, written out in full, stands behind them all.

* `magnitude_of_mem_neighbours`: what is found on a grid is read as the magnitude again.
-/

namespace Bukvar.Decimal

/-- The number `digits * 10 ^ exponent`. -/
structure Scientific where
  digits : Nat
  exponent : Int
deriving DecidableEq

namespace Scientific

/-- The magnitude that the number is read as. -/
def magnitude (s : Scientific) : Nat :=
  decimalMagnitude s.digits s.exponent

/-- The number of digits before the point, negative where zeros follow the point: the
number lies in the decade below the power of ten with this exponent. -/
def position (s : Scientific) : Int :=
  digitCount s.digits + s.exponent

end Scientific

/-- The exponent of the power of ten just above a positive fraction. -/
def decade (num den : Nat) : Int :=
  if den ≤ num then digitCount (num / den)
  else 1 - digitCount ((den - 1) / num)

/-- The neighbours of a magnitude's exact value among the decimals that have the given number
of digits below the power of ten with exponent `top`, as far as they are read as that
magnitude, the better one first. -/
def neighbours (magnitude : Nat) (top : Int) (precision : Nat) : List Scientific :=
  let exponent := top - precision
  let num := Binary64.units magnitude * Nat.pow 10 (-exponent).toNat
  let den := Binary64.unitsInOne * Nat.pow 10 exponent.toNat
  let below : Scientific := ⟨num / den, exponent⟩
  let above : Scientific := ⟨num / den + 1, exponent⟩
  let ordered := if den ≤ 2 * (num % den) then [above, below] else [below, above]
  ordered.filter (·.magnitude = magnitude)

/-- The exact value of a magnitude. -/
def exact (magnitude : Nat) : Scientific where
  digits := Binary64.units magnitude * Nat.pow 5 1074
  exponent := -1074

/-- The shortest decimal that is read as the magnitude. Seventeen digits always suffice. -/
def shortest (magnitude : Nat) : Scientific :=
  let top := decade (Binary64.units magnitude) Binary64.unitsInOne
  ((List.range' 1 17).findSome? fun precision =>
    (neighbours magnitude top precision).head?).getD (exact magnitude)

theorem magnitude_of_mem_neighbours {magnitude precision : Nat} {top : Int} {s : Scientific}
    (h : s ∈ neighbours magnitude top precision) : s.magnitude = magnitude := by
  simp only [neighbours, List.mem_filter, decide_eq_true_eq] at h
  exact h.2

end Bukvar.Decimal
