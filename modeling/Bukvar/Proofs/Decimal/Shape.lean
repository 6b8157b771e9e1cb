import Bukvar.Proofs.Decimal.RoundTrip
import Bukvar.Proofs.Token.Classification

/-!
# Literals of the right shape

The shapes by which units are told apart are those that the readers of literals expect. So the
reader of a literal finds a number, and refuses it at most because it is out of range.

* `outOfRange_of_readInteger`: digits after an optional minus sign.
* `outOfRange_of_readDouble`: digits on both sides of a point.
-/

namespace Bukvar.Decimal

open Token (isDigits isDouble isInteger withoutMinus)

/-! ## Integers -/

theorem outOfRange_of_appendDigits {negative : Bool} {start : Int} {ds : List Char}
    {e : LiteralError} (hds : ds.all Char.isDigit = true)
    (h : appendDigits negative start ds = .error e) : e = .outOfRange := by
  induction ds generalizing start with
  | nil => cases h
  | cons c ds ih =>
    rw [List.all_cons, Bool.and_eq_true] at hds
    rw [appendDigits, digit?_of_isDigit hds.1] at h
    dsimp only at h
    rcases appendDigit_cases negative start (c.toNat - '0'.toNat) with ⟨next, hnext, -⟩ | herror
    · rw [hnext] at h
      exact ih hds.2 h
    · rw [herror] at h
      cases h
      rfl

theorem outOfRange_of_readDigits {negative : Bool} {ds : List Char} {e : LiteralError}
    (hds : isDigits ds = true) (h : readDigits negative ds = .error e) : e = .outOfRange := by
  rw [isDigits, Bool.and_eq_true, Bool.not_eq_true'] at hds
  rw [readDigits, if_neg (by simp [hds.1])] at h
  exact outOfRange_of_appendDigits hds.2 h

theorem outOfRange_of_readInteger {text : String} {e : LiteralError}
    (hshape : isInteger text.toList = true) (h : readInteger text = .error e) :
    e = .outOfRange := by
  unfold readInteger at h
  rcases isInteger_cases hshape with ⟨ds, hcs, hds⟩ | hds
  · rw [hcs] at h
    exact outOfRange_of_readDigits hds h
  · split at h
    next heq => exact absurd heq (isDigits_ne_minus hds)
    next heq => exact absurd heq (isDigits_ne_plus hds)
    next => exact outOfRange_of_readDigits hds h

/-! ## Floating-point numbers -/

theorem exists_parse?_of_isDouble {cs : List Char} (h : isDouble cs = true) :
    ∃ negative numeral, Numeral.parse? cs = some (negative, numeral) := by
  obtain ⟨whole, fraction, hcs, hwhole, hfraction⟩ := Token.exists_of_isDouble h
  rw [isDigits, Bool.and_eq_true, Bool.not_eq_true', List.isEmpty_eq_false_iff] at hwhole hfraction
  have hnumeral := unsigned?_point hwhole.1 hwhole.2 hfraction.2
  obtain ⟨c, digits, rfl⟩ := List.exists_cons_of_ne_nil hwhole.1
  have hc : c.isDigit = true := List.all_eq_true.mp hwhole.2 c (List.mem_cons_self ..)
  unfold withoutMinus at hcs
  split at hcs
  next rest =>
    subst hcs
    exact ⟨true, _, @parse?_sign true _ _ _ hc hnumeral⟩
  next =>
    subst hcs
    exact ⟨false, _, @parse?_sign false _ _ _ hc hnumeral⟩

theorem outOfRange_of_readDouble {text : String} {e : LiteralError}
    (hshape : isDouble text.toList = true) (h : readDouble text = .error e) :
    e = .outOfRange := by
  obtain ⟨negative, numeral, hparse⟩ := exists_parse?_of_isDouble hshape
  rw [readDouble, hparse] at h
  dsimp only at h
  split at h
  next => cases h
  next =>
    cases h
    rfl

end Bukvar.Decimal
