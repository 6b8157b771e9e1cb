import Bukvar.Fault
import Bukvar.Decimal.Digits

/-!
# Spans

A span is a stretch of a source, counted in bytes: where it starts, and a length that fits
thirty-two bits.

* `ofBounds_eq_ok_iff`: a span exists for exactly those bounds that are in order and near
  enough to each other.
* `cover_self`, `cover_comm`: the span that covers two others.
-/

namespace Bukvar

/-- Spans are shorter than this. -/
def Span.limit : Nat :=
  0x100000000

/-- A stretch of a source in bytes. -/
structure Span where
  lo : Nat
  length : Nat
  length_lt : length < Span.limit
deriving DecidableEq

namespace Span

/-- Where the span ends: the offset of the first byte behind it. -/
def hi (s : Span) : Nat :=
  s.lo + s.length

/-- The span without bytes at an offset. -/
def empty (offset : Nat) : Span :=
  ⟨offset, 0, by decide⟩

/-- The span between two offsets. -/
def ofBounds (lo hi : Nat) : Except Fault Span :=
  if hi < lo then .error .reversedSpan
  else if h : hi - lo < Span.limit then .ok ⟨lo, hi - lo, h⟩
  else .error .spanTooLong

/-- The least span that holds both. -/
def cover (a b : Span) : Except Fault Span :=
  ofBounds (min a.lo b.lo) (max a.hi b.hi)

/-- A span as text: its two bounds. -/
def text (s : Span) : String :=
  Decimal.naturalText s.lo ++ ".." ++ Decimal.naturalText s.hi

/-- A span as text, with its length. -/
def fullText (s : Span) : String :=
  "Span(" ++ s.text ++ ", len: " ++ Decimal.naturalText s.length ++ ")"

theorem lo_le_hi (s : Span) : s.lo ≤ s.hi :=
  Nat.le_add_right _ _

theorem ofBounds_eq_ok_iff {lo hi : Nat} {s : Span} :
    ofBounds lo hi = .ok s ↔ s.lo = lo ∧ s.hi = hi := by
  obtain ⟨slo, slen, _⟩ := s
  unfold ofBounds
  constructor
  · intro h
    split at h
    · cases h
    · split at h
      · cases h
        exact ⟨rfl, by simp only [Span.hi]; omega⟩
      · cases h
  · rintro ⟨hlo, hhi⟩
    change slo = lo at hlo
    change slo + slen = hi at hhi
    rw [if_neg (by omega), dif_pos (by omega), Except.ok.injEq, mk.injEq]
    omega

theorem ofBounds_lo_hi (s : Span) : ofBounds s.lo s.hi = .ok s :=
  ofBounds_eq_ok_iff.mpr ⟨rfl, rfl⟩

theorem cover_eq_ok_iff {a b s : Span} :
    a.cover b = .ok s ↔ s.lo = min a.lo b.lo ∧ s.hi = max a.hi b.hi :=
  ofBounds_eq_ok_iff

theorem cover_self (s : Span) : s.cover s = .ok s :=
  cover_eq_ok_iff.mpr ⟨(Nat.min_self _).symm, (Nat.max_self _).symm⟩

theorem cover_comm (a b : Span) : a.cover b = b.cover a := by
  unfold cover
  rw [Nat.min_comm, Nat.max_comm]

end Span

/-- A value with the stretch of the source that it stands for. -/
structure Located (α : Type) where
  span : Span
  value : α
deriving DecidableEq

end Bukvar
