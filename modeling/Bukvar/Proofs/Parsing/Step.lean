import Bukvar.Parsing.Expression
import Bukvar.Proofs.Parsing.Ahead

/-!
# Single steps of the reader of expressions

What one round of each reader does, said without its monad: an operand of one token, the joining
of two sides by an operator, and the choice between going on and stopping. The readers of
expressions and of operators are not opened anywhere else.

* `operand_eq_ok_iff`: an operand of one token is read exactly where its literal has a value.
* `joined_eq_ok_iff`: exactly when two sides are joined.
* `operatorsWithin_succ`: the powers and the conversion of an operator's token agree.
* `run_operators_stop`, `run_operators_step`, `operatorsWithin_cases`: one round over operators.
-/

namespace Bukvar.Parsing

open Token (Stream Kind)
open Grammar (Symbol symbol Derivation Target Level level)

variable {ds : List (String × VarType)}

/-! ## Operands -/

/-- The derivation of a symbol that is an operand by itself. -/
def leaf? (s : Symbol) : Option (Derivation .primary) :=
  match s.kind with
  | .name => some (.name s.text)
  | .integerLiteral => some (.integer s.text)
  | .doubleLiteral => some (.double s.text)
  | .stringLiteral => some (.string s.text)
  | _ => none

theorem word_of_leaf? {s : Symbol} {d : Derivation .primary} (h : leaf? s = some d) :
    d.word = [s] := by
  obtain ⟨kind, text⟩ := s
  cases kind <;> simp [leaf?] at h <;> subst h <;> rfl

theorem unquote?_eq {text : String} (h : Token.isString text.toList = true) :
    unquote? text = some (Text.stringOf text) := by
  unfold Token.isString at h
  unfold unquote? Text.stringOf
  split at h
  next cs heq =>
    simp only [heq, List.tail_cons]
    rw [if_pos (by simpa using h)]
  next => cases h

theorem literal_eq_ok_iff {α : Type} {span : Span} {value : Except Decimal.LiteralError α}
    {wrap : α → Span → Expr} {e : Expr} {s s' : State} :
    literal span value wrap s = .ok e s' ↔ ∃ a, value = .ok a ∧ e = wrap a span ∧ s' = s := by
  cases value with
  | ok a =>
    constructor
    · intro h
      cases h
      exact ⟨a, rfl, rfl, rfl⟩
    · rintro ⟨b, hb, rfl, rfl⟩
      cases hb
      rfl
  | error err =>
    constructor
    · intro h
      cases h
    · rintro ⟨b, hb, _⟩
      cases hb

/-- The operand that a token is by itself, at its place. -/
def placed (t : Token) : Expr :=
  match t.kind with
  | .name => .ident ⟨t.text, t.span⟩ t.span
  | .integerLiteral => .integer (Decimal.integerOf t.text) t.span
  | .doubleLiteral => .double (Decimal.doubleOf t.text) t.span
  | _ => .string (Text.stringOf t.text) t.span

theorem span_placed (t : Token) : (placed t).span = t.span := by
  unfold placed
  split <;> rfl

theorem exists_leaf {t : Token} (h : t.kind.hasText = true) :
    ∃ d, leaf? (symbol t) = some d ∧ (placed t).bare = d.tree := by
  have htext := Grammar.text_symbol h
  unfold leaf? placed
  rw [Grammar.kind_symbol, htext]
  cases hk : t.kind <;> simp [hk, Kind.hasText] at h <;> exact ⟨_, rfl, rfl⟩

/-- An operand of one token is read exactly if it is no number or its number has a value. -/
theorem operand_eq_ok_iff {inner : Parser Expr} {t : Token} {e : Expr} {s s' : State}
    (ht : t.Regular) (hk : t.kind.hasText = true) :
    operand inner t s = .ok e s' ↔ (symbol t).Fits ∧ e = placed t ∧ s' = s := by
  have htext := Grammar.text_symbol hk
  unfold operand placed Symbol.Fits
  rw [Grammar.kind_symbol, htext]
  cases hkind : t.kind with
  | name =>
    simp only [reduceCtorEq, false_implies, and_self, true_and]
    constructor
    · intro h
      cases h
      exact ⟨rfl, rfl⟩
    · rintro ⟨rfl, rfl⟩
      rfl
  | integerLiteral =>
    rw [literal_eq_ok_iff]
    simp only [Decimal.readInteger_eq_ok_iff (ht.integer hkind), reduceCtorEq, false_implies,
      forall_const, and_true]
    constructor
    · rintro ⟨v, ⟨hr, rfl⟩, rfl, rfl⟩
      exact ⟨hr, rfl, rfl⟩
    · rintro ⟨hr, rfl, rfl⟩
      exact ⟨_, ⟨hr, rfl⟩, rfl, rfl⟩
  | doubleLiteral =>
    rw [literal_eq_ok_iff]
    simp only [Decimal.readDouble_eq_ok_iff, reduceCtorEq, false_implies, forall_const, true_and]
    constructor
    · rintro ⟨v, ⟨hr, rfl⟩, rfl, rfl⟩
      exact ⟨hr, rfl, rfl⟩
    · rintro ⟨hr, rfl, rfl⟩
      exact ⟨_, ⟨hr, rfl⟩, rfl, rfl⟩
  | stringLiteral =>
    rw [literal_eq_ok_iff, unquote?_eq (ht.string hkind)]
    simp only [Option.elim_some, reduceCtorEq, false_implies, and_self, true_and]
    constructor
    · rintro ⟨v, hv, rfl, rfl⟩
      cases hv
      exact ⟨rfl, rfl⟩
    · rintro ⟨rfl, rfl⟩
      exact ⟨_, rfl, rfl, rfl⟩
  | _ => simp [hkind, Kind.hasText] at hk

/-! ## One step of the readers -/

theorem current_eq (s : State) : current s = .ok s.stream.current s := rfl

theorem reject_ne_ok {α : Type} {span : Span} {p : Diagnostic.Problem} {a : α} {s s' : State} :
    (reject span p : Parser α) s ≠ .ok a s' := by
  intro h
  cases h

/-- Both sides of an operator are joined where an assignment has a variable on its left and
no comparison follows a comparison. -/
theorem joined_eq_ok_iff {inner : Parser Expr} {op : Operator} {lhs e : Expr} {s s' : State} :
    joined inner op lhs s = .ok e s' ↔
      (op = .assign → lhs.isIdent = true) ∧ ∃ rhs span, inner s = .ok rhs s' ∧
        ¬ (op.isComparison = true ∧ s'.stream.current.kind.isComparison = true) ∧
        cover lhs.span rhs.span s' = .ok span s' ∧ e = .binary op lhs rhs span := by
  unfold joined
  dsimp only
  split
  next hc =>
    constructor
    · intro h
      obtain ⟨_, _, hr, _⟩ := bind_eq_ok_iff.mp h
      exact absurd hr reject_ne_ok
    · rintro ⟨hi, _⟩
      exact absurd (hi hc.1) hc.2
  next hc =>
    rw [bind_eq_ok_iff]
    constructor
    · rintro ⟨rhs, m, hin, h⟩
      rw [bind_of_ok (current_eq m)] at h
      split at h
      · obtain ⟨_, _, hr, _⟩ := bind_eq_ok_iff.mp h
        exact absurd hr reject_ne_ok
      next hcmp =>
        obtain ⟨span, m', hcov, hp⟩ := bind_eq_ok_iff.mp h
        obtain rfl := state_of_cover hcov
        cases hp
        refine ⟨fun ha => ?_, rhs, span, hin, hcmp, hcov, rfl⟩
        by_cases hid : lhs.isIdent = true
        · exact hid
        · exact absurd ⟨ha, hid⟩ hc
    · rintro ⟨_, rhs, span, hin, hcmp, hcov, rfl⟩
      refine ⟨rhs, s', hin, ?_⟩
      rw [bind_of_ok (current_eq s'), if_neg hcmp, bind_of_ok hcov]
      rfl

/-- One round over operators. Only the token of an operator has powers, and the conversion gives
that operator back. -/
theorem operatorsWithin_succ (fuel least : Nat) (lhs : Expr) :
    operatorsWithin (fuel + 1) least lhs = (do
      match (← current).kind with
      | .operator op =>
        if op.leftPower < least then return lhs
        let _ ← advance
        let expr ← joined (expressionWithin fuel op.rightPower) op lhs
        operatorsWithin fuel least expr
      | _ => return lhs) := by
  rw [operatorsWithin]
  apply bind_congr
  rintro ⟨kind, text, span⟩
  cases kind <;> rfl

/-- The operators that follow an expression have been read when the next token is no operator
or one that is too weak. -/
theorem run_operators_stop {fuel least : Nat} {e : Expr} {s : State}
    (h : ∀ op, s.stream.current.kind = .operator op → op.leftPower < least) :
    operatorsWithin (fuel + 1) least e s = .ok e s := by
  rw [operatorsWithin_succ, bind_of_ok (current_eq s)]
  cases hk : s.stream.current.kind with
  | operator op =>
    dsimp only
    rw [if_pos (h op hk)]
    rfl
  | _ => rfl

theorem run_operators_step {fuel least : Nat} {lhs e : Expr} {s : Stream} {t : Token}
    {rest : List Token} {op : Operator} {s' : State} (hs : s.ahead = t :: rest)
    (hop : t.kind = .operator op) (hleast : least ≤ op.leftPower)
    (h : joined (expressionWithin fuel op.rightPower) op lhs ⟨s.step, ds⟩ = .ok e s') :
    operatorsWithin (fuel + 1) least lhs ⟨s, ds⟩ = operatorsWithin fuel least e s' := by
  rw [operatorsWithin_succ, bind_of_ok (run_current hs)]
  simp only [hop]
  rw [if_neg (Nat.not_lt.mpr hleast), bind_of_ok (run_advance hs (by simp [hop])), bind_of_ok h]

/-- What the reader of operators did: it stopped, or it joined one operator and went on. -/
theorem operatorsWithin_cases {fuel least : Nat} {lhs e : Expr} {s : Stream} {s' : State}
    (hc : Token.Complete s.ahead)
    (h : operatorsWithin (fuel + 1) least lhs ⟨s, ds⟩ = .ok e s') :
    (e = lhs ∧ s' = ⟨s, ds⟩ ∧ ∀ op, s.current.kind = .operator op → op.leftPower < least) ∨
      ∃ op e' m, s.current.kind = .operator op ∧ least ≤ op.leftPower ∧
        joined (expressionWithin fuel op.rightPower) op lhs ⟨s.step, ds⟩ = .ok e' m ∧
        operatorsWithin fuel least e' m = .ok e s' := by
  by_cases hstop : ∀ op, s.current.kind = .operator op → op.leftPower < least
  · rw [run_operators_stop hstop] at h
    cases h
    exact .inl ⟨rfl, rfl, hstop⟩
  · simp only [Classical.not_forall, Nat.not_lt] at hstop
    obtain ⟨op, hop, hleast⟩ := hstop
    obtain ⟨rest, hs⟩ := exists_ahead hc
    rw [operatorsWithin_succ, bind_of_ok (run_current hs)] at h
    simp only [hop] at h
    rw [if_neg (Nat.not_lt.mpr hleast), bind_of_ok (run_advance hs (by simp [hop]))] at h
    obtain ⟨e', m, hj, hrest⟩ := bind_eq_ok_iff.mp h
    exact .inr ⟨op, e', m, hop, hleast, hj, hrest⟩

/-! ## Levels of both sides -/

/-- The level of what stands on the left of an operator. -/
def leftLevel : Operator → Level
  | .assign => .primary
  | .equals | .less | .lessOrEqual | .greater | .greaterOrEqual => .sum
  | .add | .subtract => .sum
  | .multiply | .divide => .product

/-- The level of what stands on the right of an operator. -/
def rightLevel : Operator → Level
  | .assign => .assignment
  | .equals | .less | .lessOrEqual | .greater | .greaterOrEqual => .sum
  | .add | .subtract => .product
  | .multiply | .divide => .primary

theorem levels_of_isComparison {op : Operator} (h : op.isComparison = true) :
    level op = .comparison ∧ leftLevel op = .sum ∧ rightLevel op = .sum ∧ op ≠ .assign := by
  revert h
  cases op <;> decide

theorem levels_of_isAdditive {op : Operator} (h : op.isAdditive = true) :
    level op = .sum ∧ leftLevel op = .sum ∧ rightLevel op = .product ∧ op ≠ .assign := by
  revert h
  cases op <;> decide

theorem levels_of_isMultiplicative {op : Operator} (h : op.isMultiplicative = true) :
    level op = .product ∧ leftLevel op = .product ∧ rightLevel op = .primary ∧ op ≠ .assign := by
  revert h
  cases op <;> decide

end Bukvar.Parsing
