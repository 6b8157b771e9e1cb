import Bukvar.Proofs.Parsing.Step

/-!
# What is read is a derived expression

The reader of operators keeps an invariant: what stands on the left has been derived at a level
that the next operator admits on its left. A power asked of the operators bounds the level of
what they make (`Bounds`), and what stops a reader on the right of an operator (`Weak`) is what
the invariant needs of the next operator (`rank_le_leftLevel`). The invariant is the same for
everything that can be recorded of an expression while it is put together (`Builds`).

* `expression_built`: what is recorded of an expression that was read.
* `expression_sound`: an expression that was read is the tree of a derivation of the tokens that
  were passed.
-/

namespace Bukvar.Parsing

open Token (Stream Kind)
open Grammar (Symbol symbol Derivation Target Level level)

variable {ds : List (String × VarType)}

/-! ## Derivations from their parts -/

/-- A derivation of a level is one of the next level. -/
theorem exists_lift_one {l : Level} (d : Derivation l) (h : l ≠ .assignment) :
    ∃ (l' : Level) (d' : Derivation l'), l'.rank = l.rank + 1 ∧ d'.word = d.word ∧
      d'.tree = d.tree := by
  cases l with
  | assignment => exact absurd rfl h
  | comparison => exact ⟨.assignment, .ofComparison d, rfl, rfl, rfl⟩
  | sum => exact ⟨.comparison, .ofSum d, rfl, rfl, rfl⟩
  | product => exact ⟨.sum, .ofProduct d, rfl, rfl, rfl⟩
  | primary => exact ⟨.product, .ofPrimary d, rfl, rfl, rfl⟩

theorem eq_of_rank_eq {l l' : Level} (h : l.rank = l'.rank) : l = l' := by
  revert h
  cases l <;> cases l' <;> decide

/-- A derivation of a level is one of every looser level. -/
theorem exists_lift {l l' : Level} (d : Derivation l) (h : l.rank ≤ l'.rank) :
    ∃ d' : Derivation l', d'.word = d.word ∧ d'.tree = d.tree := by
  obtain ⟨k, hk⟩ := Nat.exists_eq_add_of_le h
  induction k generalizing l with
  | zero =>
    obtain rfl := eq_of_rank_eq hk
    exact ⟨d, rfl, rfl⟩
  | succ k ih =>
    have hne : l ≠ .assignment := by
      rintro rfl
      have : l'.rank ≤ 4 := by cases l' <;> decide
      have : Level.assignment.rank = 4 := rfl
      omega
    obtain ⟨m, d', hrank, hword, htree⟩ := exists_lift_one d hne
    obtain ⟨d'', hword', htree'⟩ := ih d' (by omega) (by omega)
    exact ⟨d'', hword'.trans hword, htree'.trans htree⟩

/-- What is a variable is derived as one in parentheses, or in none. -/
theorem exists_target {l : Level} (d : Derivation l) (h : d.tree.isIdent = true) :
    ∃ t : Target, t.word = d.word ∧ t.tree = d.tree := by
  induction d with
  | name text => exact ⟨.name text, rfl, rfl⟩
  | group inner ih =>
    obtain ⟨t, hword, htree⟩ := ih h
    exact ⟨.group t, by rw [Target.word, hword]; rfl, htree⟩
  | ofComparison _ ih | ofSum _ ih | ofProduct _ ih | ofPrimary _ ih => exact ih h
  | _ => cases h

/-- The derivation of an operator between derivations of its two sides. -/
theorem exists_operation {op : Operator} {l : Level} (dl : Derivation l)
    (dr : Derivation (rightLevel op)) (hrank : op ≠ .assign → l.rank ≤ (leftLevel op).rank)
    (hassign : op = .assign → dl.tree.isIdent = true) :
    ∃ d : Derivation (level op), d.word = dl.word ++ .mark (.operator op) :: dr.word ∧
      d.tree = .binary op dl.tree dr.tree (.empty 0) := by
  by_cases ha : op = .assign
  · obtain ⟨t, hword, htree⟩ := exists_target dl (hassign ha)
    subst ha
    exact ⟨Derivation.assign t dr, by rw [← hword]; rfl, by rw [← htree]; rfl⟩
  · obtain ⟨dl', hword, htree⟩ := exists_lift dl (hrank ha)
    rw [← hword, ← htree]
    cases op with
    | assign => exact absurd rfl ha
    | add => exact ⟨Derivation.add dl' .add rfl dr, rfl, rfl⟩
    | subtract => exact ⟨Derivation.add dl' .subtract rfl dr, rfl, rfl⟩
    | multiply => exact ⟨Derivation.multiply dl' .multiply rfl dr, rfl, rfl⟩
    | divide => exact ⟨Derivation.multiply dl' .divide rfl dr, rfl, rfl⟩
    | equals => exact ⟨Derivation.compare dl' .equals rfl dr, rfl, rfl⟩
    | less => exact ⟨Derivation.compare dl' .less rfl dr, rfl, rfl⟩
    | lessOrEqual => exact ⟨Derivation.compare dl' .lessOrEqual rfl dr, rfl, rfl⟩
    | greater => exact ⟨Derivation.compare dl' .greater rfl dr, rfl, rfl⟩
    | greaterOrEqual => exact ⟨Derivation.compare dl' .greaterOrEqual rfl dr, rfl, rfl⟩

/-- The tokens between two streams are a word of the level, and the expression is its tree. -/
def Parsed (l : Level) (e : Expr) (s s' : Stream) : Prop :=
  ∃ d : Derivation l, Passes s d.word s' ∧ e.bare = d.tree ∧ ∀ x ∈ d.word, x.Fits

/-- The level holds all operators of at least the given power. -/
def Bounds (least : Nat) (l : Level) : Prop :=
  ∀ op : Operator, least ≤ op.leftPower → (level op).rank ≤ l.rank

/-- The next token is no operator of at least the given power. -/
def Weak (least : Nat) (s : Stream) : Prop :=
  ∀ op, s.current.kind = .operator op → op.leftPower < least

theorem bounds_assignment (least : Nat) : Bounds least .assignment := by
  intro op _
  cases op <;> decide

theorem bounds_rightPower (op : Operator) : Bounds op.rightPower (rightLevel op) := by
  intro op' h
  cases op <;> cases op' <;> revert h <;> decide

theorem rank_le_leftLevel {op op' : Operator} (h : op'.leftPower < op.rightPower)
    (hcmp : ¬ (op.isComparison = true ∧ op'.isComparison = true)) (hne : op' ≠ .assign) :
    (level op).rank ≤ (leftLevel op').rank := by
  cases op <;> cases op' <;> revert h hcmp hne <;> decide

theorem Parsed.lift {l l' : Level} {e : Expr} {s s' : Stream} (h : Parsed l e s s')
    (hl : l.rank ≤ l'.rank) : Parsed l' e s s' := by
  obtain ⟨d, hp, hbare, hfits⟩ := h
  obtain ⟨d', hword, htree⟩ := exists_lift d hl
  exact ⟨d', hword ▸ hp, htree ▸ hbare, hword ▸ hfits⟩

theorem Parsed.complete_right {l : Level} {e : Expr} {s s' : Stream} (h : Parsed l e s s') :
    Token.Complete s'.ahead := by
  obtain ⟨d, hp, -⟩ := h
  exact hp.complete_right

theorem parsed_leaf {s : Stream} (hk : s.current.kind.hasText = true)
    (hfits : (symbol s.current).Fits) (hp : Passes s [symbol s.current] s.step) :
    Parsed .primary (placed s.current) s s.step := by
  obtain ⟨d, hd, hbare⟩ := exists_leaf hk
  have hword := word_of_leaf? hd
  exact ⟨d, hword ▸ hp, hbare, by simpa [hword] using hfits⟩

/-- Both sides of an operator make a word of its level. -/
theorem parsed_operation {op : Operator} {l : Level} {lhs rhs : Expr} {s m s' : Stream}
    {span : Span} (hl : Parsed l lhs s m) (hr : Parsed (rightLevel op) rhs m.step s')
    (hop : Passes m [.mark (.operator op)] m.step)
    (hrank : op ≠ .assign → l.rank ≤ (leftLevel op).rank)
    (hassign : op = .assign → lhs.isIdent = true) :
    Parsed (level op) (.binary op lhs rhs span) s s' := by
  obtain ⟨dl, hpl, hbarel, hfitsl⟩ := hl
  obtain ⟨dr, hpr, hbarer, hfitsr⟩ := hr
  obtain ⟨d, hword, htree⟩ := exists_operation dl dr hrank fun ha => by
    rw [← hbarel, Expr.isIdent_bare]
    exact hassign ha
  refine ⟨d, ?_, ?_, ?_⟩
  · rw [hword]
    exact hpl.trans (hop.trans hpr)
  · rw [Expr.bare, htree, hbarel, hbarer]
  · intro x hx
    rw [hword, List.mem_append, List.mem_cons] at hx
    rcases hx with hx | rfl | hx
    · exact hfitsl x hx
    · exact ⟨by simp [Symbol.mark], by simp [Symbol.mark]⟩
    · exact hfitsr x hx

/-- Parentheses around a word of the loosest level make one of the tightest. -/
theorem parsed_group {e : Expr} {s m : Stream} {span : Span}
    (hopen : Passes s [.mark .leftParen] s.step) (hin : Parsed .assignment e s.step m)
    (hclose : Passes m [.mark .rightParen] m.step) :
    Parsed .primary (e.withSpan span) s m.step := by
  obtain ⟨d, hp, hbare, hfits⟩ := hin
  refine ⟨.group d, ?_, by rw [Expr.bare_withSpan, hbare]; rfl, ?_⟩
  · exact hopen.trans (hp.trans hclose)
  · intro x hx
    simp only [Derivation.word, Grammar.grouped, List.cons_append, List.mem_cons, List.mem_append,
      List.not_mem_nil, or_false] at hx
    rcases hx with rfl | hx | rfl
    · exact ⟨by simp [Symbol.mark], by simp [Symbol.mark]⟩
    · exact hfits x hx
    · exact ⟨by simp [Symbol.mark], by simp [Symbol.mark]⟩

/-- What is recorded of an expression between two streams can be put together as its readers put
the expression together. -/
structure Builds (P : Level → Expr → Stream → Stream → Prop) : Prop where
  complete_right : ∀ {l e s s'}, P l e s s' → Token.Complete s'.ahead
  lift : ∀ {l l' e s s'}, P l e s s' → l.rank ≤ l'.rank → P l' e s s'
  leaf : ∀ {s}, s.current.kind.hasText = true → (symbol s.current).Fits →
    Passes s [symbol s.current] s.step → P .primary (placed s.current) s s.step
  group : ∀ {e s m span}, Passes s [.mark .leftParen] s.step → P .assignment e s.step m →
    Passes m [.mark .rightParen] m.step → s.current.span.cover m.current.span = .ok span →
    P .primary (e.withSpan span) s m.step
  operation : ∀ {op l lhs rhs s m s' span}, P l lhs s m → P (rightLevel op) rhs m.step s' →
    Passes m [.mark (.operator op)] m.step → (op ≠ .assign → l.rank ≤ (leftLevel op).rank) →
    (op = .assign → lhs.isIdent = true) → lhs.span.cover rhs.span = .ok span →
    P (level op) (.binary op lhs rhs span) s s'

theorem builds_parsed : Builds Parsed where
  complete_right := Parsed.complete_right
  lift := Parsed.lift
  leaf := parsed_leaf
  group := fun hopen hin hclose _ => parsed_group hopen hin hclose
  operation := fun hl hr hop hrank hassign _ => parsed_operation hl hr hop hrank hassign

section

variable (P : Level → Expr → Stream → Stream → Prop)

/-- What the reader of operators makes of an expression that has been read. -/
def OperatorsSound (fuel : Nat) : Prop :=
  ∀ (ds : List (String × VarType)) (least : Nat) (l l' : Level) (lhs e : Expr) (s m : Stream)
    (m' : State), P l lhs s m → l.rank ≤ l'.rank → Bounds least l' →
    (∀ op, m.current.kind = .operator op → op ≠ .assign → l.rank ≤ (leftLevel op).rank) →
    operatorsWithin fuel least lhs ⟨m, ds⟩ = .ok e m' →
    ∃ s', m' = ⟨s', ds⟩ ∧ P l' e s s' ∧ Weak least s'

/-- What the reader of expressions makes of the tokens ahead. -/
def ExpressionSound (fuel : Nat) : Prop :=
  ∀ (ds : List (String × VarType)) (least : Nat) (l : Level) (e : Expr) (s : Stream) (m' : State),
    Token.Complete s.ahead → Bounds least l → expressionWithin fuel least ⟨s, ds⟩ = .ok e m' →
    ∃ s', m' = ⟨s', ds⟩ ∧ P l e s s' ∧ Weak least s'

end

variable {P : Level → Expr → Stream → Stream → Prop}

theorem cover_eq_ok {a b c : Span} {m n : State} (h : cover a b m = .ok c n) :
    a.cover b = .ok c := by
  unfold cover at h
  split at h
  next span hspan =>
    cases h
    exact hspan
  next => cases h

theorem operators_sound_succ {fuel : Nat} (hP : Builds P) (hexpr : ExpressionSound P fuel)
    (hops : OperatorsSound P fuel) : OperatorsSound P (fuel + 1) := by
  intro ds least l l' lhs e s m m' hlhs hl hb hnext h
  have hc := hP.complete_right hlhs
  rcases operatorsWithin_cases hc h with ⟨rfl, rfl, hweak⟩ | ⟨op, e', n, hop, hleast, hj, hrest⟩
  · exact ⟨m, rfl, hP.lift hlhs hl, hweak⟩
  · obtain ⟨rest, hs⟩ := exists_ahead hc
    have hne : m.current.kind ≠ .endOfInput := by simp [hop]
    have hmark : symbol m.current = .mark (.operator op) := by
      rw [Grammar.symbol_eq_mark (by simp [hop, Kind.hasText]), hop]
    have hp : Passes m [.mark (.operator op)] m.step := hmark ▸ Passes.one hc hs hne
    obtain ⟨hassign, rhs, span, hin, hcmp, hcover, rfl⟩ := joined_eq_ok_iff.mp hj
    obtain ⟨n', rfl, hrhs, hweak⟩ := hexpr ds op.rightPower (rightLevel op) rhs m.step n
      hp.complete_right (bounds_rightPower op) hin
    have hwhole : P (level op) (.binary op lhs rhs span) s n' :=
      hP.operation hlhs hrhs hp (hnext op hop) hassign (cover_eq_ok hcover)
    refine hops ds least (level op) l' _ e s n' m' hwhole (hb op hleast) hb ?_ hrest
    intro op' hop' hne'
    refine rank_le_leftLevel (hweak op' hop') ?_ hne'
    rintro ⟨h1, h2⟩
    exact hcmp ⟨h1, by simpa [hop', Kind.isComparison] using h2⟩

theorem operand_cases {inner : Parser Expr} {t : Token} {e : Expr} {s s' : State}
    (h : operand inner t s = .ok e s') :
    t.kind.hasText = true ∨ t.kind = .leftParen ∧ ∃ e' m close span, inner s = .ok e' m ∧
      expect .rightParen m = .ok close s' ∧ t.span.cover close.span = .ok span ∧
      e = e'.withSpan span := by
  unfold operand at h
  cases hk : t.kind with
  | name | integerLiteral | doubleLiteral | stringLiteral => exact .inl rfl
  | leftParen =>
    simp only [hk] at h
    obtain ⟨e', m, hin, h⟩ := bind_eq_ok_iff.mp h
    obtain ⟨close, n, hclose, h⟩ := bind_eq_ok_iff.mp h
    obtain ⟨span, n', hcov, hret⟩ := bind_eq_ok_iff.mp h
    obtain rfl := state_of_cover hcov
    cases hret
    exact .inr ⟨rfl, e', m, close, span, hin, hclose, cover_eq_ok hcov, rfl⟩
  | _ =>
    simp only [hk] at h
    exact absurd h reject_ne_ok

theorem expression_sound_succ {fuel : Nat} (hP : Builds P) (hexpr : ExpressionSound P fuel)
    (hops : OperatorsSound P fuel) : ExpressionSound P (fuel + 1) := by
  intro ds least l e s m' hc hb h
  rw [expressionWithin] at h
  obtain ⟨t, m, hadv, h⟩ := bind_eq_ok_iff.mp h
  obtain ⟨rfl, rfl, hne, ht, hp⟩ := passes_of_advance hc hadv
  obtain ⟨lhs, m, hoperand, h⟩ := bind_eq_ok_iff.mp h
  have hlhs : ∃ n, m = ⟨n, ds⟩ ∧ P .primary lhs s n := by
    rcases operand_cases hoperand with hk | ⟨hk, e', m₁, close, span, hin, hclose, hcover, rfl⟩
    · obtain ⟨hfits, rfl, rfl⟩ := (operand_eq_ok_iff ht hk).mp hoperand
      exact ⟨s.step, rfl, hP.leaf hk hfits hp⟩
    · have hmark : symbol s.current = .mark .leftParen := by
        rw [Grammar.symbol_eq_mark (by simp [hk, Kind.hasText]), hk]
      obtain ⟨n₁, rfl, hinner, -⟩ := hexpr ds 0 .assignment e' s.step m₁ hp.complete_right
        (bounds_assignment 0) hin
      obtain ⟨-, rfl, -⟩ := (expect_eq_ok_iff (by decide)).mp hclose
      obtain ⟨rfl, hpclose⟩ := passes_of_expect_mark rfl (hP.complete_right hinner) hclose
      exact ⟨n₁.step, rfl, hP.group (hmark ▸ hp) hinner hpclose hcover⟩
  obtain ⟨n, rfl, hlhs⟩ := hlhs
  exact hops ds least .primary l lhs e s n m' hlhs (Nat.zero_le _) hb
    (fun _ _ _ => Nat.zero_le _) h

theorem expression_and_operators_sound (hP : Builds P) (fuel : Nat) :
    ExpressionSound P fuel ∧ OperatorsSound P fuel := by
  induction fuel with
  | zero =>
    constructor
    · intro ds least l e s m' _ _ h
      rw [expressionWithin] at h
      cases h
    · intro ds least l l' lhs e s m m' _ _ _ _ h
      rw [operatorsWithin] at h
      cases h
  | succ fuel ih =>
    exact ⟨expression_sound_succ hP ih.1 ih.2, operators_sound_succ hP ih.1 ih.2⟩

theorem expression_built (hP : Builds P) {s : Stream} {e : Expr} {m' : State}
    (hc : Token.Complete s.ahead) (h : expression ⟨s, ds⟩ = .ok e m') :
    ∃ s', m' = ⟨s', ds⟩ ∧ P .assignment e s s' ∧ ∀ op, s'.current.kind ≠ .operator op := by
  obtain ⟨s', rfl, hbuilt, hweak⟩ := (expression_and_operators_sound hP _).1 ds 0 .assignment e s m'
    hc (bounds_assignment 0) h
  exact ⟨s', rfl, hbuilt, fun op hop => Nat.not_lt_zero _ (hweak op hop)⟩

/-- An expression that was read is the tree of a derivation of the tokens that were passed, and
no operator follows it. -/
theorem expression_sound {s : Stream} {e : Expr} {m' : State} (hc : Token.Complete s.ahead)
    (h : expression ⟨s, ds⟩ = .ok e m') :
    ∃ s', m' = ⟨s', ds⟩ ∧ Parsed .assignment e s s' ∧
      ∀ op, s'.current.kind ≠ .operator op :=
  expression_built builds_parsed hc h

end Bukvar.Parsing
