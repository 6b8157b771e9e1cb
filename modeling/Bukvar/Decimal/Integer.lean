import Bukvar.Decimal.Digits

/-!
# Integer literals

Integers have thirty-two bits. `readInteger` takes an optional sign and at least one digit,
and goes through the digits from the left, so of a stray character and a value out of range
the one that shows first decides.

* `appendDigit_cases`: what one more digit can lead to.
* `inRange_of_readInteger`: an integer that was read fits thirty-two bits.
-/

namespace Bukvar.Decimal

/-- Why the text of a literal has no value. -/
inductive LiteralError where
  /-- The text does not have the form of a number. -/
  | malformed
  /-- The number lies beyond what the type can hold. -/
  | outOfRange
deriving DecidableEq

/-- Whether an integer fits thirty-two bits, sign included. -/
def InRange (value : Int) : Prop :=
  -2147483648 ≤ value ∧ value ≤ 2147483647

instance (value : Int) : Decidable (InRange value) :=
  inferInstanceAs (Decidable (_ ∧ _))

/-- The result of a step of arithmetic, which must fit thirty-two bits. -/
def checked (value : Int) : Except LiteralError Int :=
  if InRange value then .ok value else .error .outOfRange

/-- One more digit at the right of a value, away from zero. The shifted value is checked before the
digit is added. -/
def appendDigit (negative : Bool) (value : Int) (digit : Nat) : Except LiteralError Int := do
  let shifted ← checked (value * 10)
  checked (if negative then shifted - digit else shifted + digit)

/-- Appends digits to a value from the left, and stops where a step leaves the range. -/
def appendDigits (negative : Bool) : Int → List Char → Except LiteralError Int
  | value, [] => .ok value
  | value, c :: cs =>
    match digit? c with
    | none => .error .malformed
    | some d => do appendDigits negative (← appendDigit negative value d) cs

/-- The value of at least one digit, with the sign that stood before them. -/
def readDigits (negative : Bool) (ds : List Char) : Except LiteralError Int :=
  if ds.isEmpty then .error .malformed else appendDigits negative 0 ds

/-- The value of an integer literal. -/
def readInteger (text : String) : Except LiteralError Int :=
  match text.toList with
  | '-' :: ds => readDigits true ds
  | '+' :: ds => readDigits false ds
  | ds => readDigits false ds

/-- An integer as text: a minus sign where it is negative, then its digits. -/
def integerText : Int → String
  | .ofNat n => naturalText n
  | .negSucc n => "-" ++ naturalText (n + 1)

theorem checked_of_inRange {value : Int} (h : InRange value) : checked value = .ok value :=
  if_pos h

theorem checked_of_not_inRange {value : Int} (h : ¬InRange value) :
    checked value = .error .outOfRange :=
  if_neg h

/-- A digit is added, and the new value fits, or the range is left. -/
theorem appendDigit_cases (negative : Bool) (value : Int) (digit : Nat) :
    (∃ result, appendDigit negative value digit = .ok result ∧ InRange result) ∨
      appendDigit negative value digit = .error .outOfRange := by
  unfold appendDigit
  by_cases hshifted : InRange (value * 10)
  · rw [checked_of_inRange hshifted]
    by_cases hsum : InRange (if negative then value * 10 - digit else value * 10 + digit)
    · exact .inl ⟨_, checked_of_inRange hsum, hsum⟩
    · exact .inr (checked_of_not_inRange hsum)
  · rw [checked_of_not_inRange hshifted]
    exact .inr rfl

theorem inRange_of_appendDigits {negative : Bool} {start value : Int} {cs : List Char}
    (hs : InRange start) (h : appendDigits negative start cs = .ok value) : InRange value := by
  induction cs generalizing start with
  | nil =>
    simp only [appendDigits, Except.ok.injEq] at h
    exact h ▸ hs
  | cons c cs ih =>
    rw [appendDigits] at h
    split at h
    · cases h
    next d _ =>
      rcases appendDigit_cases negative start d with ⟨next, hnext, hrange⟩ | herror
      · rw [hnext] at h
        exact ih hrange h
      · rw [herror] at h
        cases h

theorem inRange_of_readInteger {text : String} {value : Int}
    (h : readInteger text = .ok value) : InRange value := by
  have key : ∀ negative ds, readDigits negative ds = .ok value → InRange value := by
    intro negative ds hd
    rw [readDigits] at hd
    split at hd
    · cases hd
    · exact inRange_of_appendDigits (by decide) hd
  rw [readInteger] at h
  split at h <;> exact key _ _ h

end Bukvar.Decimal
