import Bukvar.Proofs.Grammar.Expression

/-!
# Uniqueness of derivations of expressions

* `Derivation.eq_of_word_eq`: a string of symbols has at most one derivation. The sign of the
  outermost rule is found outside all parentheses, and one side of the rule has no such sign
  outside of its own parentheses (`Derivation.free_word`), so there is one place only where the
  sign can stand.
* `Derivation.eq_of_append_eq`: where no operator follows, also the end of a derived string is
  determined by the symbols, because outside of all parentheses two operands never stand side
  by side (`Derivation.seamed_word`).
-/

namespace Bukvar.Grammar

open Token (Kind)

/-! ## Nesting of parentheses -/

/-- How many more parentheses a word opens than it closes. -/
def nesting : List Symbol → Int
  | [] => 0
  | s :: rest =>
    (if s.kind = .leftParen then 1 else if s.kind = .rightParen then -1 else 0) + nesting rest

@[simp] theorem nesting_nil : nesting [] = 0 := rfl

@[simp] theorem nesting_open (w : List Symbol) :
    nesting (.mark .leftParen :: w) = 1 + nesting w := rfl

@[simp] theorem nesting_close (w : List Symbol) :
    nesting (.mark .rightParen :: w) = -1 + nesting w := rfl

theorem nesting_cons {s : Symbol} (hl : s.kind ≠ .leftParen) (hr : s.kind ≠ .rightParen)
    (w : List Symbol) : nesting (s :: w) = nesting w := by
  rw [nesting, if_neg hl, if_neg hr, Int.zero_add]

@[simp] theorem nesting_operator (op : Operator) (w : List Symbol) :
    nesting (.mark (.operator op) :: w) = nesting w :=
  nesting_cons (by simp [Symbol.mark]) (by simp [Symbol.mark]) w

@[simp] theorem nesting_append (u v : List Symbol) :
    nesting (u ++ v) = nesting u + nesting v := by
  induction u with
  | nil => simp
  | cons s u ih => rw [List.cons_append, nesting, nesting, ih, Int.add_assoc]

/-- Every parenthesis of the word has its partner in it. -/
structure Balanced (w : List Symbol) : Prop where
  nesting_eq : nesting w = 0
  nonneg : ∀ u v, w = u ++ v → 0 ≤ nesting u

theorem balanced_append {u v : List Symbol} (hu : Balanced u) (hv : Balanced v) :
    Balanced (u ++ v) := by
  refine ⟨by rw [nesting_append, hu.nesting_eq, hv.nesting_eq]; rfl, ?_⟩
  intro a b h
  rcases List.append_eq_append_iff.mp h with ⟨m, rfl, hm⟩ | ⟨m, hm, rfl⟩
  · rw [nesting_append, hu.nesting_eq, Int.zero_add]
    exact hv.nonneg m b hm
  · exact hu.nonneg a m hm

theorem balanced_cons {s : Symbol} {w : List Symbol} (hl : s.kind ≠ .leftParen)
    (hr : s.kind ≠ .rightParen) (hw : Balanced w) : Balanced (s :: w) := by
  refine ⟨by rw [nesting_cons hl hr, hw.nesting_eq], ?_⟩
  intro a b h
  cases a with
  | nil => exact Int.le_refl 0
  | cons x a =>
    obtain ⟨rfl, ht⟩ := List.cons.inj h
    rw [nesting_cons hl hr]
    exact hw.nonneg a b ht

theorem balanced_single {s : Symbol} (hl : s.kind ≠ .leftParen) (hr : s.kind ≠ .rightParen) :
    Balanced [s] :=
  balanced_cons hl hr ⟨rfl, fun u v h => by simp [(List.append_eq_nil_iff.mp h.symm).1]⟩

/-- Inside a group every proper part from the left leaves a parenthesis open. -/
theorem nesting_pos_of_grouped {w a b : List Symbol} (hw : Balanced w)
    (h : grouped w = a ++ b) (ha : a ≠ []) (hb : b ≠ []) : 0 < nesting a := by
  cases a with
  | nil => exact absurd rfl ha
  | cons s a =>
    rw [grouped, List.cons_append, List.cons_append] at h
    obtain ⟨rfl, ht⟩ := List.cons.inj h
    have hsplit : ∃ b', w = a ++ b' := by
      rcases List.append_eq_append_iff.mp ht with ⟨m, rfl, hm⟩ | ⟨m, rfl, _⟩
      · cases m with
        | nil => exact ⟨[], by simp⟩
        | cons x m =>
          have hb' : m ++ b = [] := (List.cons.inj hm).2.symm
          exact absurd (List.append_eq_nil_iff.mp hb').2 hb
      · exact ⟨m, rfl⟩
    obtain ⟨b', hb'⟩ := hsplit
    have := hw.nonneg a b' hb'
    rw [nesting_open]
    omega

theorem balanced_grouped {w : List Symbol} (hw : Balanced w) : Balanced (grouped w) := by
  have hn : nesting (grouped w) = 0 := by
    simp [grouped, hw.nesting_eq]
  refine ⟨hn, ?_⟩
  intro a b h
  by_cases ha : a = []
  · rw [ha]
    exact Int.le_refl 0
  · by_cases hb : b = []
    · rw [hb, List.append_nil] at h
      exact Int.le_of_eq (h ▸ hn.symm)
    · exact Int.le_of_lt (nesting_pos_of_grouped hw h ha hb)

theorem Target.balanced_word (t : Target) : Balanced t.word := by
  induction t with
  | name text => exact balanced_single (by simp) (by simp)
  | group inner ih => exact balanced_grouped ih

theorem balanced_operation {u v : List Symbol} (op : Operator) (hu : Balanced u) (hv : Balanced v) :
    Balanced (u ++ .mark (.operator op) :: v) :=
  balanced_append hu (balanced_cons (by simp [Symbol.mark]) (by simp [Symbol.mark]) hv)

theorem Derivation.balanced_word {l : Level} (d : Derivation l) : Balanced d.word := by
  induction d with
  | assign target value ih => exact balanced_operation _ target.balanced_word ih
  | compare lhs op _ rhs ihl ihr => exact balanced_operation _ ihl ihr
  | add lhs op _ rhs ihl ihr => exact balanced_operation _ ihl ihr
  | multiply lhs op _ rhs ihl ihr => exact balanced_operation _ ihl ihr
  | ofComparison _ ih | ofSum _ ih | ofProduct _ ih | ofPrimary _ ih => exact ih
  | name _ | integer _ | double _ | string _ => exact balanced_single (by simp) (by simp)
  | group _ ih => exact balanced_grouped ih

/-! ## Operators outside all parentheses -/

/-- No operator of a level above the given rank stands outside the parentheses of the word. -/
def Free (rank : Nat) (w : List Symbol) : Prop :=
  ∀ a op b, w = a ++ .mark (.operator op) :: b → rank < (level op).rank → nesting a ≠ 0

theorem free_mono {m n : Nat} {w : List Symbol} (hmn : m ≤ n) (h : Free m w) : Free n w :=
  fun a op b hw hop => h a op b hw (Nat.lt_of_le_of_lt hmn hop)

theorem free_single {n : Nat} {s : Symbol} (h : ∀ op, s ≠ .mark (.operator op)) : Free n [s] := by
  intro a op b hw _
  cases a with
  | nil => exact absurd (List.cons.inj hw).1 (h op)
  | cons x a => simp at hw

theorem free_grouped {n : Nat} {w : List Symbol} (hw : Balanced w) : Free n (grouped w) := by
  intro a op b h _
  have ha : a ≠ [] := by
    rintro rfl
    simp [grouped, Symbol.mark] at h
  have := nesting_pos_of_grouped hw h ha (by simp)
  omega

/-- A symbol of a divided word stands before the division, at it, or behind it. -/
theorem append_cons_cases {u v a b : List Symbol} {s t : Symbol} (h : u ++ s :: v = a ++ t :: b) :
    (∃ m, u = a ++ t :: m ∧ b = m ++ s :: v) ∨ (a = u ∧ t = s ∧ b = v) ∨
      ∃ m, v = m ++ t :: b ∧ a = u ++ s :: m := by
  rcases List.append_eq_append_iff.mp h with ⟨m, rfl, hm⟩ | ⟨m, rfl, hm⟩
  · cases m with
    | nil =>
      obtain ⟨rfl, rfl⟩ := List.cons.inj hm
      exact .inr (.inl ⟨List.append_nil u, rfl, rfl⟩)
    | cons x m =>
      obtain ⟨rfl, rfl⟩ := List.cons.inj hm
      exact .inr (.inr ⟨m, rfl, rfl⟩)
  · cases m with
    | nil =>
      obtain ⟨rfl, rfl⟩ := List.cons.inj hm
      exact .inr (.inl ⟨(List.append_nil a).symm, rfl, rfl⟩)
    | cons x m =>
      obtain ⟨rfl, rfl⟩ := List.cons.inj hm
      exact .inl ⟨m, rfl, rfl⟩

theorem free_operation {n : Nat} {u v : List Symbol} {op : Operator} (hbal : Balanced u)
    (hu : Free n u) (hv : Free n v) (hop : (level op).rank ≤ n) :
    Free n (u ++ .mark (.operator op) :: v) := by
  intro a op' b h hop'
  rcases append_cons_cases h with ⟨m, hm, _⟩ | ⟨_, hs, _⟩ | ⟨m, hm, rfl⟩
  · exact hu a op' m hm hop'
  · have : op' = op := by simpa [Symbol.mark] using hs
    subst this
    omega
  · rw [nesting_append, hbal.nesting_eq, nesting_operator, Int.zero_add]
    exact hv m op' b hm hop'

theorem Target.free_word (t : Target) (n : Nat) : Free n t.word := by
  cases t with
  | name text => exact free_single (by simp [Symbol.mark])
  | group inner => exact free_grouped inner.balanced_word

namespace Derivation

/-- Outside its parentheses a word has only operators of its own level and below. -/
theorem free_word {l : Level} (d : Derivation l) : Free l.rank d.word := by
  induction d with
  | assign target value ih =>
    exact free_operation target.balanced_word (target.free_word _) ih (by decide)
  | compare lhs op hop rhs ihl ihr =>
    exact free_operation lhs.balanced_word (free_mono (by decide) ihl) (free_mono (by decide) ihr)
      (Nat.le_of_eq (congrArg Level.rank (level_of_isComparison hop)))
  | add lhs op hop rhs ihl ihr =>
    exact free_operation lhs.balanced_word ihl (free_mono (by decide) ihr)
      (Nat.le_of_eq (congrArg Level.rank (level_of_isAdditive hop)))
  | multiply lhs op hop rhs ihl ihr =>
    exact free_operation lhs.balanced_word ihl (free_mono (by decide) ihr)
      (Nat.le_of_eq (congrArg Level.rank (level_of_isMultiplicative hop)))
  | ofComparison _ ih | ofSum _ ih | ofProduct _ ih | ofPrimary _ ih =>
    exact free_mono (by decide) ih
  | name _ | integer _ | double _ | string _ => exact free_single (by simp [Symbol.mark])
  | group inner _ => exact free_grouped inner.balanced_word

theorem word_ne_operation {l : Level} (d : Derivation l) {u v : List Symbol} {op : Operator}
    (hu : Balanced u) (hop : l.rank < (level op).rank) :
    d.word ≠ u ++ .mark (.operator op) :: v :=
  fun h => d.free_word u op v h hop hu.nesting_eq

end Derivation

/-! ## Uniqueness of derivations -/

theorem sum_lt_level {op : Operator} (h : op.isComparison = true) :
    Level.sum.rank < (level op).rank := by
  rw [level_of_isComparison h]
  decide

theorem product_lt_level {op : Operator} (h : op.isAdditive = true) :
    Level.product.rank < (level op).rank := by
  rw [level_of_isAdditive h]
  decide

theorem primary_lt_level {op : Operator} (h : op.isMultiplicative = true) :
    Level.primary.rank < (level op).rank := by
  rw [level_of_isMultiplicative h]
  decide

theorem grouped_inj {v w : List Symbol} (h : grouped v = grouped w) : v = w := by
  simpa [grouped] using h

/-- Where the left sides are free of an operator, its first place outside of all parentheses
divides the word. -/
theorem split_left {n : Nat} {u u' v v' : List Symbol} {op op' : Operator}
    (hu : Balanced u) (hu' : Balanced u') (hf : Free n u) (hf' : Free n u')
    (hop : n < (level op).rank) (hop' : n < (level op').rank)
    (h : u ++ .mark (.operator op) :: v = u' ++ .mark (.operator op') :: v') :
    u = u' ∧ op = op' ∧ v = v' := by
  rcases append_cons_cases h with ⟨m, hm, _⟩ | ⟨rfl, hs, rfl⟩ | ⟨m, _, hm⟩
  · exact absurd hu'.nesting_eq (hf u' op' m hm hop')
  · exact ⟨rfl, by simpa [Symbol.mark] using hs.symm, rfl⟩
  · exact absurd hu.nesting_eq (hf' u op m hm hop)

/-- Where the right sides are free of an operator, its last place outside of all parentheses
divides the word. -/
theorem split_right {n : Nat} {u u' v v' : List Symbol} {op op' : Operator}
    (hu : Balanced u) (hu' : Balanced u') (hf : Free n v) (hf' : Free n v')
    (hop : n < (level op).rank) (hop' : n < (level op').rank)
    (h : u ++ .mark (.operator op) :: v = u' ++ .mark (.operator op') :: v') :
    u = u' ∧ op = op' ∧ v = v' := by
  rcases append_cons_cases h with ⟨m, hm, hv⟩ | ⟨rfl, hs, rfl⟩ | ⟨m, hv, hm⟩
  · refine absurd ?_ (hf' m op v hv hop)
    have := hu.nesting_eq
    rw [hm, nesting_append, hu'.nesting_eq, nesting_operator] at this
    omega
  · exact ⟨rfl, by simpa [Symbol.mark] using hs.symm, rfl⟩
  · refine absurd ?_ (hf m op' v' hv hop')
    have := hu'.nesting_eq
    rw [hm, nesting_append, hu.nesting_eq, nesting_operator] at this
    omega

theorem Target.eq_of_word_eq (t t' : Target) (h : t.word = t'.word) : t = t' := by
  induction t generalizing t' with
  | name text =>
    cases t' with
    | name text' => simpa [Target.word] using h
    | group inner' => simp [Target.word, grouped] at h
  | group inner ih =>
    cases t' with
    | name text' => simp [Target.word, grouped] at h
    | group inner' => rw [ih inner' (grouped_inj h)]

namespace Derivation

/-- **The grammar is unambiguous.** A string of symbols has at most one derivation. -/
theorem eq_of_word_eq {l : Level} (d d' : Derivation l) (h : d.word = d'.word) : d = d' := by
  induction d with
  | assign target value ih =>
    cases d' with
    | assign target' value' =>
      obtain ⟨ht, -, hv⟩ := split_left target.balanced_word target'.balanced_word
        (target.free_word 3) (target'.free_word 3) (by decide) (by decide) h
      rw [Target.eq_of_word_eq _ _ ht, ih value' hv]
    | ofComparison inner' =>
      exact absurd h.symm (inner'.word_ne_operation target.balanced_word (by decide))
  | ofComparison inner ih =>
    cases d' with
    | assign target' value' =>
      exact absurd h (inner.word_ne_operation target'.balanced_word (by decide))
    | ofComparison inner' => rw [ih inner' h]
  | compare lhs op hop rhs ihl ihr =>
    have hlt := sum_lt_level hop
    cases d' with
    | compare lhs' op' hop' rhs' =>
      obtain ⟨hlhs, rfl, hrhs⟩ := split_left lhs.balanced_word lhs'.balanced_word lhs.free_word
        lhs'.free_word hlt (sum_lt_level hop') h
      rw [ihl lhs' hlhs, ihr rhs' hrhs]
    | ofSum inner' =>
      exact absurd h.symm (inner'.word_ne_operation lhs.balanced_word hlt)
  | ofSum inner ih =>
    cases d' with
    | compare lhs' op' hop' rhs' =>
      exact absurd h (inner.word_ne_operation lhs'.balanced_word (sum_lt_level hop'))
    | ofSum inner' => rw [ih inner' h]
  | add lhs op hop rhs ihl ihr =>
    have hlt := product_lt_level hop
    cases d' with
    | add lhs' op' hop' rhs' =>
      obtain ⟨hlhs, rfl, hrhs⟩ := split_right lhs.balanced_word lhs'.balanced_word rhs.free_word
        rhs'.free_word hlt (product_lt_level hop') h
      rw [ihl lhs' hlhs, ihr rhs' hrhs]
    | ofProduct inner' =>
      exact absurd h.symm (inner'.word_ne_operation lhs.balanced_word hlt)
  | ofProduct inner ih =>
    cases d' with
    | add lhs' op' hop' rhs' =>
      exact absurd h (inner.word_ne_operation lhs'.balanced_word (product_lt_level hop'))
    | ofProduct inner' => rw [ih inner' h]
  | multiply lhs op hop rhs ihl ihr =>
    have hlt := primary_lt_level hop
    cases d' with
    | multiply lhs' op' hop' rhs' =>
      obtain ⟨hlhs, rfl, hrhs⟩ := split_right lhs.balanced_word lhs'.balanced_word rhs.free_word
        rhs'.free_word hlt (primary_lt_level hop') h
      rw [ihl lhs' hlhs, ihr rhs' hrhs]
    | ofPrimary inner' =>
      exact absurd h.symm (inner'.word_ne_operation lhs.balanced_word hlt)
  | ofPrimary inner ih =>
    cases d' with
    | multiply lhs' op' hop' rhs' =>
      exact absurd h (inner.word_ne_operation lhs'.balanced_word (primary_lt_level hop'))
    | ofPrimary inner' => rw [ih inner' h]
  | name text | integer text | double text | string text =>
    cases d' <;> simp_all [word, grouped, Symbol.mark]
  | group inner ih =>
    cases d' with
    | group inner' => rw [ih inner' (grouped_inj h)]
    | _ => simp [word, grouped, Symbol.mark] at h

end Derivation

/-! ## Where a derived word ends -/

/-- The symbol is an operator. -/
def Symbol.IsOperator (s : Symbol) : Prop :=
  ∃ op, s = .mark (.operator op)

/-- No operator stands at the front. -/
def Stops (w : List Symbol) : Prop :=
  ∀ s rest, w = s :: rest → ¬ s.IsOperator

/-- Both ends of the word are no operators, and wherever it is divided outside of all
parentheses, one of the two symbols at the division is one. -/
structure Seamed (w : List Symbol) : Prop where
  ne_nil : w ≠ []
  first : Stops w
  last : ∀ a s, w = a ++ [s] → ¬ s.IsOperator
  seam : ∀ a s t b, w = a ++ s :: t :: b → nesting (a ++ [s]) = 0 → s.IsOperator ∨ t.IsOperator

theorem seamed_single {s : Symbol} (h : ¬ s.IsOperator) : Seamed [s] := by
  refine ⟨by simp, ?_, ?_, ?_⟩
  · intro t rest ht
    rw [← (List.cons.inj ht).1]
    exact h
  · intro a t ht
    have : [] ++ [s] = a ++ [t] := ht
    obtain ⟨rfl, -⟩ := List.cons.inj (List.append_inj' this rfl).2
    exact h
  · intro a t u b ht
    have := congrArg List.length ht
    simp only [List.length_append, List.length_cons, List.length_nil] at this
    omega

theorem seamed_grouped {w : List Symbol} (hw : Balanced w) : Seamed (grouped w) := by
  refine ⟨by simp [grouped], ?_, ?_, ?_⟩
  · rintro s rest h ⟨op, rfl⟩
    simp [grouped, Symbol.mark] at h
  · rintro a s h ⟨op, rfl⟩
    have := (List.append_inj' h rfl).2
    simp [Symbol.mark] at this
  · intro a s t b h hn
    have := nesting_pos_of_grouped (a := a ++ [s]) (b := t :: b) hw (by simpa using h) (by simp)
      (by simp)
    omega

theorem seamed_operation {u v : List Symbol} (op : Operator) (hbal : Balanced u) (hu : Seamed u)
    (hv : Seamed v) : Seamed (u ++ .mark (.operator op) :: v) := by
  refine ⟨by simp, ?_, ?_, ?_⟩
  · intro s rest h
    cases u with
    | nil => exact absurd rfl hu.ne_nil
    | cons x u => exact hu.first s u (by rw [(List.cons.inj h).1])
  · intro a s h
    rcases append_cons_cases (b := []) h with ⟨m, _, hm⟩ | ⟨_, _, hm⟩ | ⟨m, hm, _⟩
    · simp at hm
    · exact absurd hm.symm hv.ne_nil
    · exact hv.last m s hm
  · intro a s t b h hn
    rcases append_cons_cases h with ⟨m, hm, hb⟩ | ⟨_, hs, _⟩ | ⟨m, hm, rfl⟩
    · cases m with
      | nil => exact .inr ⟨op, (List.cons.inj hb).1⟩
      | cons x m =>
        obtain ⟨rfl, -⟩ := List.cons.inj hb
        exact hu.seam a s t m hm hn
    · exact .inl ⟨op, hs⟩
    · apply hv.seam m s t b hm
      rw [List.append_assoc, nesting_append, hbal.nesting_eq, List.cons_append,
        nesting_operator] at hn
      omega

theorem Target.seamed_word (t : Target) : Seamed t.word := by
  cases t with
  | name text => exact seamed_single (by simp [Symbol.IsOperator, Symbol.mark])
  | group inner => exact seamed_grouped inner.balanced_word

namespace Derivation

theorem seamed_word {l : Level} (d : Derivation l) : Seamed d.word := by
  induction d with
  | assign target value ih => exact seamed_operation _ target.balanced_word target.seamed_word ih
  | compare lhs op _ rhs ihl ihr => exact seamed_operation _ lhs.balanced_word ihl ihr
  | add lhs op _ rhs ihl ihr => exact seamed_operation _ lhs.balanced_word ihl ihr
  | multiply lhs op _ rhs ihl ihr => exact seamed_operation _ lhs.balanced_word ihl ihr
  | ofComparison _ ih | ofSum _ ih | ofProduct _ ih | ofPrimary _ ih => exact ih
  | name _ | integer _ | double _ | string _ =>
    exact seamed_single (by simp [Symbol.IsOperator, Symbol.mark])
  | group inner _ => exact seamed_grouped inner.balanced_word

/-- A word that goes on behind a derived one goes on with an operator. -/
theorem eq_nil_of_word_append {l l' : Level} (d : Derivation l) (d' : Derivation l')
    {m : List Symbol} (h : d'.word = d.word ++ m) (hm : Stops m) : m = [] := by
  cases m with
  | nil => rfl
  | cons t m =>
    obtain ⟨a, s, hs⟩ : ∃ a s, d.word = a ++ [s] :=
      ⟨_, _, (List.dropLast_concat_getLast d.seamed_word.ne_nil).symm⟩
    rw [hs, List.append_assoc] at h
    rcases d'.seamed_word.seam a s t m h (by rw [← hs, d.balanced_word.nesting_eq]) with ho | ho
    · exact absurd ho (d.seamed_word.last a s hs)
    · exact absurd ho (hm t m rfl)

/-- Where no operator follows, the symbols determine where a derived word ends. -/
theorem eq_of_append_eq {l : Level} (d d' : Derivation l) {r r' : List Symbol}
    (h : d.word ++ r = d'.word ++ r') (hr : Stops r) (hr' : Stops r') : d = d' ∧ r = r' := by
  have stops_of : ∀ {m s : List Symbol}, Stops (m ++ s) → Stops m := by
    rintro m s hms t rest rfl
    exact hms t (rest ++ s) rfl
  rcases List.append_eq_append_iff.mp h with ⟨m, hm, rfl⟩ | ⟨m, hm, rfl⟩
  · have := eq_nil_of_word_append d d' hm (stops_of hr)
    subst this
    rw [List.append_nil] at hm
    exact ⟨eq_of_word_eq d d' hm.symm, rfl⟩
  · have := eq_nil_of_word_append d' d hm (stops_of hr')
    subst this
    rw [List.append_nil] at hm
    exact ⟨eq_of_word_eq d d' hm, rfl⟩

end Derivation

end Bukvar.Grammar
