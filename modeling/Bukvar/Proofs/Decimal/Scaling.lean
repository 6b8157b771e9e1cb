import Bukvar.Proofs.Decimal.Denotation

/-!
# One number, many decimals

A decimal may be written with more or fewer zeros at its end. What it is read as depends on
the number only.

* `nearest_mul`: rounding a fraction does not depend on how it is expanded.
* `decimalMagnitude_mul`: zeros at the end of the digits are made up for by the exponent.
-/

namespace Bukvar.Decimal

open Binary64 (roundHalfEven nearest)

theorem roundHalfEven_mul (num den : Nat) {c : Nat} (hc : 0 < c) :
    roundHalfEven (num * c) (den * c) = roundHalfEven num den := by
  have hlt : 2 * (num % den * c) < den * c ↔ 2 * (num % den) < den := by
    rw [← Nat.mul_assoc]
    exact Nat.mul_lt_mul_right hc
  have hgt : den * c < 2 * (num % den * c) ↔ den < 2 * (num % den) := by
    rw [← Nat.mul_assoc]
    exact Nat.mul_lt_mul_right hc
  simp only [roundHalfEven, Nat.mul_div_mul_right _ _ hc, Nat.mul_mod_mul_right, hlt, hgt]

theorem nearest_mul (num den : Nat) {c : Nat} (hc : 0 < c) :
    nearest (num * c) (den * c) = nearest num den := by
  have hscaled : num * c * Binary64.unitsInOne = num * Binary64.unitsInOne * c :=
    Nat.mul_right_comm ..
  have hden : ∀ shift, den * c * Nat.pow 2 shift = den * Nat.pow 2 shift * c :=
    fun shift => Nat.mul_right_comm ..
  simp only [nearest, hscaled, hden, Nat.mul_div_mul_right _ _ hc, roundHalfEven_mul _ _ hc]

theorem digits_mul_ten {n : Nat} (hn : n ≠ 0) : digits (10 * n) = digits n ++ ['0'] := by
  have h := @Nat.toDigits_append_toDigits 10 n 0 (by decide) (Nat.pos_of_ne_zero hn) (by decide)
  rw [Nat.add_zero, Nat.toDigits_zero] at h
  exact h.symm

theorem pow_ten_pos (k : Nat) : 0 < Nat.pow 10 k :=
  Nat.pow_pos (by decide)

theorem pow_ten_add (j k : Nat) : Nat.pow 10 (j + k) = Nat.pow 10 j * Nat.pow 10 k :=
  Nat.pow_add 10 j k

theorem digitCount_mul {n : Nat} (hn : n ≠ 0) (k : Nat) :
    digitCount (n * Nat.pow 10 k) = digitCount n + k := by
  induction k with
  | zero =>
    change digitCount (n * 1) = _
    rw [Nat.mul_one]
    rfl
  | succ k ih =>
    have hne : n * Nat.pow 10 k ≠ 0 := Nat.mul_ne_zero hn (Nat.ne_of_gt (pow_ten_pos k))
    have hstep : n * Nat.pow 10 (k + 1) = 10 * (n * Nat.pow 10 k) := by
      rw [pow_ten_add, Nat.mul_comm 10, ← Nat.mul_assoc]
    rw [hstep, digitCount, digits_mul_ten hne, List.length_append, ← digitCount, ih]
    rfl

theorem nearest_shift (n k : Nat) (exponent : Int) :
    nearest (n * Nat.pow 10 k * Nat.pow 10 exponent.toNat) (Nat.pow 10 (-exponent).toNat) =
      nearest (n * Nat.pow 10 (exponent + k).toNat) (Nat.pow 10 (-(exponent + k)).toNat) := by
  rcases Int.le_total 0 exponent with hpos | hneg
  · have hnum : k + exponent.toNat = (exponent + k).toNat := by omega
    have hden : (-exponent).toNat = (-(exponent + k)).toNat := by omega
    rw [Nat.mul_assoc, ← pow_ten_add, hnum, hden]
  · have hnum : k + exponent.toNat = (exponent + k).toNat + (min k (-exponent).toNat) := by omega
    have hden : (-exponent).toNat = (-(exponent + k)).toNat + (min k (-exponent).toNat) := by omega
    rw [Nat.mul_assoc, ← pow_ten_add, hnum, hden, pow_ten_add, pow_ten_add, ← Nat.mul_assoc,
      ← hden, nearest_mul _ _ (pow_ten_pos _)]

/-- A decimal is read as the same number with more digits and a smaller exponent. -/
theorem decimalMagnitude_mul (n k : Nat) (exponent : Int) :
    decimalMagnitude (n * Nat.pow 10 k) exponent = decimalMagnitude n (exponent + k) := by
  by_cases hn : n = 0
  · subst hn
    rw [Nat.zero_mul, decimalMagnitude, decimalMagnitude, if_pos rfl, if_pos rfl]
  · have hne : n * Nat.pow 10 k ≠ 0 := Nat.mul_ne_zero hn (Nat.ne_of_gt (pow_ten_pos k))
    have hcount : (digitCount (n * Nat.pow 10 k) : Int) + exponent =
        digitCount n + (exponent + k) := by
      rw [digitCount_mul hn]
      omega
    rw [decimalMagnitude, decimalMagnitude, if_neg hne, if_neg hn, hcount, nearest_shift]

end Bukvar.Decimal
