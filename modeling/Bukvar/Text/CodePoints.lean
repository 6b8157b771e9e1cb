/-!
# Sets of code points

A set of characters is a list of closed ranges of code points in ascending order.
`covers` stops at the first range that begins beyond the code point it looks for, so a
look-up costs as many steps as there are ranges below the code point.

* `covers_iff`: on an ascending list the early stop loses nothing.
-/

namespace Bukvar.Text

/-- A closed range of code points. -/
structure CodePoints where
  first : Nat
  last : Nat

namespace CodePoints

/-- Whether some range holds the code point. -/
def covers : List CodePoints → Nat → Bool
  | [], _ => false
  | r :: rs, n => if n < r.first then false else n ≤ r.last || covers rs n

/-- Ranges that ascend without a common code point. -/
def Ascending (ranges : List CodePoints) : Prop :=
  ranges.Pairwise fun r s => r.last < s.first

theorem covers_iff {ranges : List CodePoints} (h : Ascending ranges)
    (hr : ∀ r ∈ ranges, r.first ≤ r.last) (n : Nat) :
    covers ranges n = true ↔ ∃ r ∈ ranges, r.first ≤ n ∧ n ≤ r.last := by
  induction ranges with
  | nil => simp [covers]
  | cons r rs ih =>
    have hrs := List.pairwise_cons.mp h
    have ih := ih hrs.2 fun s hs => hr s (List.mem_cons_of_mem _ hs)
    by_cases hn : n < r.first
    · have hfalse : ¬ ∃ s ∈ r :: rs, s.first ≤ n ∧ n ≤ s.last := by
        rintro ⟨s, hs, h1, _⟩
        rcases List.mem_cons.mp hs with rfl | hs
        · omega
        · have := hrs.1 s hs
          have := hr r (List.mem_cons_self ..)
          omega
      rw [covers, if_pos hn]
      exact ⟨fun hf => absurd hf Bool.false_ne_true, fun he => absurd he hfalse⟩
    · have hle : r.first ≤ n := by omega
      simp [covers, hn, ih, hle]

end CodePoints

end Bukvar.Text
