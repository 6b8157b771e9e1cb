import Bukvar.Decimal.Reader
import Bukvar.Token.Rule

/-!
# What literals denote

`integerOf` and `doubleOf` give the number that the text of a literal denotes, with no regard
to what a reader of literals does on the way.

* `readInteger_eq_ok_iff`: on digits after an optional minus sign, reading yields the integer
  that they denote exactly where it fits thirty-two bits. The reader checks the range at every
  digit; a prefix of the digits never denotes a number further from zero than all of them, so
  the check of the last digit decides.
* `readDouble_eq_ok_iff`: reading yields the denoted number exactly where it is finite.
* `integerOf_integerText`: a written integer denotes itself.
-/

namespace Bukvar.Decimal

open Token (isDigits isInteger withoutMinus)

/-- The integer that digits denote, possibly after a minus sign. -/
def integerOf (text : String) : Int :=
  match text.toList with
  | '-' :: ds => -(ofDigits ds : Int)
  | ds => ofDigits ds

/-- The floating-point number nearest to what a numeral denotes. What is no numeral denotes
no number. -/
def doubleOf (text : String) : Binary64 :=
  ((Numeral.parse? text.toList).map fun n => n.2.value n.1).getD .undefined

theorem digit?_of_isDigit {c : Char} (h : c.isDigit = true) :
    digit? c = some (c.toNat - '0'.toNat) :=
  if_pos h

/-! ## Digits from the left -/

theorem foldl_digits (ds : List Char) (hds : ds.all Char.isDigit = true) (start : Nat) :
    ds.foldl (fun n c => n * 10 + (digit? c).getD 0) start = Nat.ofDigitChars 10 ds start := by
  induction ds generalizing start with
  | nil => rfl
  | cons c ds ih =>
    simp only [List.all_cons, Bool.and_eq_true] at hds
    rw [List.foldl_cons, ih hds.2, Nat.ofDigitChars_cons, digit?_of_isDigit hds.1,
      Option.getD_some, Nat.mul_comm]

theorem ofDigits_eq {ds : List Char} (hds : ds.all Char.isDigit = true) :
    ofDigits ds = Nat.ofDigitChars 10 ds 0 :=
  foldl_digits ds hds 0

theorem isDigit_digits (n : Nat) : (digits n).all Char.isDigit = true :=
  List.all_eq_true.mpr fun _ hc => Nat.isDigit_of_mem_toDigits (by decide) (by decide) hc

theorem ofDigits_digits (n : Nat) : ofDigits (digits n) = n := by
  rw [ofDigits_eq (isDigit_digits n)]
  exact Nat.ofDigitChars_ten_toDigits

theorem isDigits_digits (n : Nat) : isDigits (digits n) = true := by
  have hpos := length_digits_pos n
  rw [isDigits, isDigit_digits, Bool.and_true, Bool.not_eq_true', List.isEmpty_eq_false_iff]
  exact List.length_pos_iff.mp hpos

/-- Digits never bring a value closer to zero. -/
theorem le_ofDigitChars (ds : List Char) (start : Nat) :
    start ≤ Nat.ofDigitChars 10 ds start := by
  induction ds generalizing start with
  | nil => exact Nat.le_of_eq Nat.ofDigitChars_nil.symm
  | cons c ds ih =>
    have := ih (10 * start + (c.toNat - '0'.toNat))
    rw [Nat.ofDigitChars_cons]
    omega

/-- A natural number with the sign that stood before its digits. -/
def signed (negative : Bool) (n : Nat) : Int :=
  if negative then -(n : Int) else n

theorem inRange_signed_of_le {negative : Bool} {m n : Nat} (h : m ≤ n)
    (hn : InRange (signed negative n)) : InRange (signed negative m) := by
  unfold InRange signed at *
  split <;> simp_all <;> omega

theorem signed_mul_ten (negative : Bool) (n : Nat) :
    signed negative n * 10 = signed negative (10 * n) := by
  cases negative <;> simp [signed] <;> omega

theorem signed_add_digit (negative : Bool) (n d : Nat) :
    (if negative then signed negative n - d else signed negative n + d) =
      signed negative (n + d) := by
  cases negative with
  | false => rfl
  | true =>
    change -(n : Int) - d = -((n + d : Nat) : Int)
    omega

/-- Of the two checks at a digit the second one decides, since the shifted value is not further from
zero than the sum. -/
theorem appendDigit_signed (negative : Bool) (n d : Nat) :
    appendDigit negative (signed negative n) d = checked (signed negative (10 * n + d)) := by
  rw [appendDigit, signed_mul_ten]
  by_cases hshifted : InRange (signed negative (10 * n))
  · rw [checked_of_inRange hshifted, ← signed_add_digit]
    rfl
  · have hsum : ¬InRange (signed negative (10 * n + d)) :=
      fun h => hshifted (inRange_signed_of_le (Nat.le_add_right ..) h)
    rw [checked_of_not_inRange hshifted, checked_of_not_inRange hsum]
    rfl

theorem appendDigits_eq_ok_iff {negative : Bool} {start : Nat} {ds : List Char} {value : Int}
    (hds : ds.all Char.isDigit = true) (hs : InRange (signed negative start)) :
    appendDigits negative (signed negative start) ds = .ok value ↔
      InRange (signed negative (Nat.ofDigitChars 10 ds start)) ∧
        value = signed negative (Nat.ofDigitChars 10 ds start) := by
  induction ds generalizing start with
  | nil =>
    rw [appendDigits, Nat.ofDigitChars_nil, Except.ok.injEq]
    exact ⟨fun h => ⟨hs, h.symm⟩, fun h => h.2.symm⟩
  | cons c ds ih =>
    simp only [List.all_cons, Bool.and_eq_true] at hds
    rw [appendDigits, digit?_of_isDigit hds.1, Nat.ofDigitChars_cons]
    simp only [appendDigit_signed]
    by_cases hr : InRange (signed negative (10 * start + (c.toNat - '0'.toNat)))
    · rw [checked_of_inRange hr]
      exact ih hds.2 hr
    · rw [checked_of_not_inRange hr]
      refine ⟨fun h => ?_, fun h => ?_⟩
      · cases h
      · exact absurd (inRange_signed_of_le (le_ofDigitChars ds _) h.1) hr

theorem readDigits_eq_ok_iff (negative : Bool) {ds : List Char} {value : Int}
    (hds : isDigits ds = true) :
    readDigits negative ds = .ok value ↔
      InRange (signed negative (ofDigits ds)) ∧ value = signed negative (ofDigits ds) := by
  simp only [isDigits, Bool.and_eq_true, Bool.not_eq_true'] at hds
  have hzero : (0 : Int) = signed negative 0 := by cases negative <;> rfl
  have hrange : InRange (signed negative 0) := by cases negative <;> decide
  rw [readDigits, if_neg (by simp [hds.1]), hzero, appendDigits_eq_ok_iff hds.2 hrange,
    ofDigits_eq hds.2]

/-! ## Literals -/

theorem isDigits_ne_minus {ds cs : List Char} (h : isDigits ds = true) : ds ≠ '-' :: cs := by
  rintro rfl
  simp [isDigits] at h

theorem isDigits_ne_plus {ds cs : List Char} (h : isDigits ds = true) : ds ≠ '+' :: cs := by
  rintro rfl
  simp [isDigits] at h

/-- An integer literal is digits, or a minus sign and digits. -/
theorem isInteger_cases {cs : List Char} (h : isInteger cs = true) :
    (∃ ds, cs = '-' :: ds ∧ isDigits ds = true) ∨ isDigits cs = true := by
  unfold isInteger withoutMinus at h
  split at h
  next ds => exact .inl ⟨ds, rfl, h⟩
  next => exact .inr h

theorem readInteger_eq_ok_iff {text : String} (h : isInteger text.toList = true) {value : Int} :
    readInteger text = .ok value ↔ InRange (integerOf text) ∧ value = integerOf text := by
  rcases isInteger_cases h with ⟨ds, hcs, hds⟩ | hds
  · unfold readInteger integerOf
    rw [hcs]
    exact readDigits_eq_ok_iff true hds
  · have hint : integerOf text = ofDigits text.toList := by
      unfold integerOf
      split
      next ds heq => exact absurd heq (isDigits_ne_minus hds)
      next => rfl
    have hread : readInteger text = readDigits false text.toList := by
      unfold readInteger
      split
      next ds heq => exact absurd heq (isDigits_ne_minus hds)
      next ds heq => exact absurd heq (isDigits_ne_plus hds)
      next => rfl
    rw [hint, hread]
    exact readDigits_eq_ok_iff false hds

theorem isFinite_undefined : Binary64.undefined.isFinite = false := by decide

theorem readDouble_eq_ok_iff {text : String} {value : Binary64} :
    readDouble text = .ok value ↔ (doubleOf text).isFinite = true ∧ value = doubleOf text := by
  unfold readDouble doubleOf
  cases h : Numeral.parse? text.toList with
  | none => simp [isFinite_undefined]
  | some n =>
    obtain ⟨negative, numeral⟩ := n
    simp only [Option.map_some, Option.getD_some]
    split
    next hf => simp [hf, eq_comm]
    next hf => simp [hf]

/-! ## Written integers -/

theorem toList_integerText_ofNat (n : Nat) : (integerText (.ofNat n)).toList = digits n := by
  simp [integerText]

theorem toList_integerText_negSucc (n : Nat) :
    (integerText (.negSucc n)).toList = '-' :: digits (n + 1) := by
  simp [integerText]

theorem isInteger_integerText (value : Int) : isInteger (integerText value).toList = true := by
  cases value with
  | ofNat n =>
    rw [toList_integerText_ofNat, isInteger, withoutMinus]
    · exact isDigits_digits n
    · exact fun cs => isDigits_ne_minus (isDigits_digits n)
  | negSucc n =>
    rw [toList_integerText_negSucc]
    exact isDigits_digits (n + 1)

theorem integerOf_integerText (value : Int) : integerOf (integerText value) = value := by
  unfold integerOf
  cases value with
  | ofNat n =>
    rw [toList_integerText_ofNat]
    split
    next ds heq => exact absurd heq (isDigits_ne_minus (isDigits_digits n))
    next => rw [ofDigits_digits]; rfl
  | negSucc n =>
    rw [toList_integerText_negSucc]
    change -(ofDigits (digits (n + 1)) : Int) = _
    rw [ofDigits_digits]
    rfl

end Bukvar.Decimal
