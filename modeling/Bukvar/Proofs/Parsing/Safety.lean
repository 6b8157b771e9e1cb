import Bukvar.Proofs.Parsing.Movement

/-!
# Reading expressions is safe

The reader of expressions runs without a fault on every stream whose spans can be covered. Each of
its rounds passes a token, so the number of tokens left bounds its fuel; and it ends behind an
operand, so that the token which ended a stream is known.

* `safe_expressionWithin`, `safe_operatorsWithin`: one round of each reader.
* `safe_expression`: reading an expression.
-/

namespace Bukvar

open Token (Kind Stream)

/-- The kinds of tokens with which an expression can end. -/
def Token.Kind.endsOperand (kind : Kind) : Bool :=
  kind = .rightParen || kind.hasText

namespace Parsing

variable {G : Span → Prop} {m : State}

/-- Behind an expression: its span has the property, and its last token was passed. -/
structure BehindExpression (G : Span → Prop) (e : Expr) (n : State) : Prop where
  span : G e.span
  ended : n.stream.EndedBy (·.endsOperand = true)

theorem safe_literal {α : Type} {span : Span} {value : Except Decimal.LiteralError α}
    {wrap : α → Span → Expr} (hspan : G span) (hended : m.stream.EndedBy (·.endsOperand = true))
    (hwrap : ∀ a, (wrap a span).span = span) :
    Safe G (literal span value wrap) m (BehindExpression G) := by
  unfold literal
  cases value with
  | ok a => exact safe_pure ⟨(hwrap a).symm ▸ hspan, hended⟩
  | error e => exact safe_reject fun _ => hspan

theorem safe_operand {inner : Parser Expr} {t : Token} (hspan : G t.span)
    (hended : m.stream.EndedBy (· = t.kind))
    (hinner : Safe G inner m fun e _ => G e.span) :
    Safe G (operand inner t) m (BehindExpression G) := by
  have hleaf (htext : t.kind.hasText = true) : m.stream.EndedBy (·.endsOperand = true) := by
    refine hended.mono ?_
    rintro kind rfl
    simp [Kind.endsOperand, htext]
  unfold operand
  split
  next hk => exact safe_pure ⟨hspan, hleaf (by rw [hk]; rfl)⟩
  next hk => exact safe_literal hspan (hleaf (by rw [hk]; rfl)) fun _ => rfl
  next hk => exact safe_literal hspan (hleaf (by rw [hk]; rfl)) fun _ => rfl
  next hk => exact safe_literal hspan (hleaf (by rw [hk]; rfl)) fun _ => rfl
  next =>
    refine safe_bind hinner ?_
    intro e n _ _
    refine safe_bind (safe_expect nofun) ?_
    rintro close n' - ⟨hclose, hpassed⟩
    refine safe_bind (safe_cover hspan hpassed.span) ?_
    rintro span n'' - ⟨hcover, rfl⟩
    refine safe_pure ⟨by rwa [Expr.span_withSpan], hpassed.ended.mono ?_⟩
    rintro kind rfl
    rw [hclose]
    rfl
  next => exact safe_reject fun _ => hspan

theorem safe_joined {inner : Parser Expr} {op : Operator} {lhs : Expr} (hlhs : G lhs.span)
    (hinner : Safe G inner m (BehindExpression G)) :
    Safe G (joined inner op lhs) m (BehindExpression G) := by
  unfold joined
  dsimp only
  split
  · exact safe_reject_bind fun _ => hlhs
  · refine safe_bind hinner ?_
    intro rhs n _ hrhs
    refine safe_of_ok (current_eq n) ?_
    split
    · exact safe_reject_bind fun hspans => hspans.look 0
    · refine safe_bind (safe_cover hlhs hrhs.span) ?_
      rintro span n' - ⟨hcover, rfl⟩
      exact safe_pure ⟨hcover, hrhs.ended⟩

/-- An expression is read safely by a reader with that much fuel. -/
def SafeExpression (G : Span → Prop) (fuel : Nat) : Prop :=
  ∀ least m, m.stream.remaining < fuel →
    Safe G (expressionWithin fuel least) m fun e n =>
      BehindExpression G e n ∧ n.stream.remaining < m.stream.remaining

/-- The operators behind an expression are read safely by a reader with that much fuel. -/
def SafeOperators (G : Span → Prop) (fuel : Nat) : Prop :=
  ∀ least lhs m, m.stream.remaining < fuel → BehindExpression G lhs m →
    Safe G (operatorsWithin fuel least lhs) m (BehindExpression G)

theorem safe_expressionWithin {fuel : Nat} (hexpr : SafeExpression G fuel)
    (hops : SafeOperators G fuel) : SafeExpression G (fuel + 1) := by
  intro least m hfuel
  rw [expressionWithin]
  refine safe_bind safe_advance ?_
  intro t n _ hpassed
  have hless := hpassed.less
  have hinner : Safe G (expressionWithin fuel 0) n fun e _ => G e.span :=
    (hexpr 0 n (by omega)).mono fun _ _ _ h => h.1.span
  refine safe_bind (safe_operand hpassed.span hpassed.ended hinner) ?_
  intro lhs n' hmoves hlhs
  have hle := hmoves.remaining_le
  refine (hops least lhs n' (by omega) hlhs).mono ?_
  intro e n'' hmoves' he
  have hle' := hmoves'.remaining_le
  exact ⟨he, by omega⟩

theorem safe_operatorsWithin {fuel : Nat} (hexpr : SafeExpression G fuel)
    (hops : SafeOperators G fuel) : SafeOperators G (fuel + 1) := by
  intro least lhs m hfuel hlhs
  rw [operatorsWithin_succ]
  refine safe_of_ok (current_eq m) ?_
  split
  next op _ =>
    split
    · exact safe_pure hlhs
    · refine safe_bind safe_advance ?_
      intro t n _ hpassed
      have hless := hpassed.less
      have hinner : Safe G (expressionWithin fuel op.rightPower) n (BehindExpression G) :=
        (hexpr op.rightPower n (by omega)).mono fun _ _ _ h => h.1
      refine safe_bind (safe_joined hlhs.span hinner) ?_
      intro e n' hmoves he
      have hle := hmoves.remaining_le
      exact hops least e n' (by omega) he
  next => exact safe_pure hlhs

theorem safe_expression_and_operators (fuel : Nat) :
    SafeExpression G fuel ∧ SafeOperators G fuel := by
  induction fuel with
  | zero =>
    constructor
    · intro least m h
      exact absurd h (Nat.not_lt_zero _)
    · intro least lhs m h
      exact absurd h (Nat.not_lt_zero _)
  | succ fuel ih => exact ⟨safe_expressionWithin ih.1 ih.2, safe_operatorsWithin ih.1 ih.2⟩

/-- Reading an expression passes a token and ends behind an operand, or stops at a problem. -/
theorem safe_expression :
    Safe G expression m fun e n =>
      BehindExpression G e n ∧ n.stream.remaining < m.stream.remaining :=
  safe_of_ok rfl ((safe_expression_and_operators _).1 0 m (Nat.lt_succ_self _))

end Parsing

end Bukvar
