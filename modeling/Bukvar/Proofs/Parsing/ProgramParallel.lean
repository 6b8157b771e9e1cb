import Bukvar.Proofs.Parsing.Parallel

/-!
# All readers take their steps together

Each reader with one fuel is parallel to itself with another. The readers that call each other are
taken together, by induction on both fuels.

* `parallel_expressions`, `parallel_statements`: the readers with fuel.
* `parallel_program`, `parallel_expressionOnly`: the readers of whole streams.
-/

namespace Bukvar.Parsing

open Token (Kind)

variable {σ : Scope}

/-- Both readers take the same steps, whatever their results. -/
abbrev InStep (σ : Scope) {α : Type} (x y : Parser α) : Prop :=
  Parallel σ x y fun _ => True

/-- Induction on two fuels. Where the right one is used up, the left reader has to be parallel to
itself. -/
theorem forall_fuels {P : Nat → Nat → Prop} (left : ∀ j, P 0 j)
    (right : ∀ i, P (i + 1) (i + 1) → P (i + 1) 0) (step : ∀ i j, P i j → P (i + 1) (j + 1)) :
    ∀ i j, P i j := by
  intro i
  induction i with
  | zero => exact left
  | succ i ih =>
    intro j
    cases j with
    | zero => exact right i (step i i (ih i))
    | succ j => exact step i j (ih j)

/-! ## Expressions -/

theorem parallel_ident : InStep σ ident ident :=
  .bind (.expect .name) fun _ _ => .pure trivial

theorem parallel_literal {α : Type} {t : Token} {span : Span}
    {value : Except Decimal.LiteralError α} {wrap : α → Span → Expr} (ht : σ.token t)
    (h : ∀ e, value = .error e → Valueless t e) :
    InStep σ (literal span value wrap) (literal span value wrap) := by
  cases hvalue : value with
  | ok a => exact .pure trivial
  | error e => exact .reject span (σ.literal ht (h e hvalue))

theorem parallel_operand {inner inner' : Parser Expr} {t : Token} (ht : σ.token t)
    (hinner : InStep σ inner inner') : InStep σ (operand inner t) (operand inner' t) := by
  unfold operand
  split
  next => exact .pure trivial
  next hkind => exact parallel_literal ht fun _ h => .integer hkind h
  next hkind => exact parallel_literal ht fun _ h => .double hkind h
  next hkind =>
    refine parallel_literal ht ?_
    intro e h
    cases hunquote : unquote? t.text with
    | none =>
      rw [hunquote] at h
      cases h
      exact .string hkind hunquote
    | some text =>
      rw [hunquote] at h
      cases h
  next =>
    refine .bind hinner fun e _ => .bind (.expect .rightParen) fun close _ => ?_
    exact .bind (.cover _ _) fun _ _ => .pure trivial
  next => exact .reject _ (σ.syntactic rfl)

theorem parallel_joined {inner inner' : Parser Expr} (op : Operator) (lhs : Expr)
    (hinner : InStep σ inner inner') : InStep σ (joined inner op lhs) (joined inner' op lhs) := by
  unfold joined
  dsimp only
  split
  · exact .reject_bind _ (σ.syntactic rfl) _ _
  · refine .bind hinner fun rhs _ => .bind .current fun following _ => ?_
    split
    · exact .reject_bind _ (σ.syntactic rfl) _ _
    · exact .bind (.cover _ _) fun _ _ => .pure trivial

/-- The readers of expressions and of operators with two fuels. -/
structure ParallelExpressions (σ : Scope) (i j : Nat) : Prop where
  expression : ∀ least, InStep σ (expressionWithin i least) (expressionWithin j least)
  operators : ∀ least lhs, InStep σ (operatorsWithin i least lhs) (operatorsWithin j least lhs)

theorem ParallelExpressions.step {i j : Nat} (h : ParallelExpressions σ i j) :
    ParallelExpressions σ (i + 1) (j + 1) := by
  constructor
  · intro least
    rw [expressionWithin, expressionWithin]
    refine .bind .advance fun t ht => ?_
    exact .bind (parallel_operand ht (h.expression 0)) fun lhs _ => h.operators least lhs
  · intro least lhs
    rw [operatorsWithin_succ, operatorsWithin_succ]
    refine .bind .current fun t _ => ?_
    split
    next op _ =>
      split
      · exact .pure trivial
      · refine .bind .advance fun _ _ => ?_
        refine .bind (parallel_joined op lhs (h.expression op.rightPower)) fun e _ => ?_
        exact h.operators least e
    next => exact .pure trivial

theorem parallel_expressions : ∀ i j, ParallelExpressions σ i j := by
  refine forall_fuels ?_ ?_ fun i j h => h.step
  · intro j
    exact ⟨fun _ => .noFuelLeft, fun _ _ => .noFuelLeft⟩
  · intro i h
    exact ⟨fun least => .noFuelRight (h.expression least),
      fun least lhs => .noFuelRight (h.operators least lhs)⟩

theorem parallel_expression : InStep σ expression expression :=
  .get fun _ _ => (parallel_expressions _ _).expression 0

/-- An expression and the token behind it. -/
theorem parallel_ended {α : Type} (kind : Kind) (f : Expr → α) :
    InStep σ
      (do
        let expr ← expression
        let _ ← expect kind
        return f expr)
      (do
        let expr ← expression
        let _ ← expect kind
        return f expr) :=
  .bind parallel_expression fun _ _ => .bind (.expect kind) fun _ _ => .pure trivial

/-! ## Statements without blocks -/

theorem parallel_declarationOf (type : VarType) :
    InStep σ (declarationOf type) (declarationOf type) := by
  unfold declarationOf declarator
  refine .bind .advance fun _ _ => .bind parallel_ident fun name _ => ?_
  refine .bind (.take _) fun b _ => ?_
  have hclose (init : Option Expr) : InStep σ
      (do
        let _ ← expect .semicolon
        declare name.name type
        return Stmt.declare type name init)
      (do
        let _ ← expect .semicolon
        declare name.name type
        return Stmt.declare type name init) :=
    .bind (.expect _) fun _ _ => .bind (.declare _ _) fun _ _ => .pure trivial
  dsimp only
  split
  · exact .bind (Q := fun _ => True) (parallel_expression.map fun _ _ => trivial) fun init _ =>
      hclose init
  · exact .bind (Q := fun _ => True) (.pure trivial) fun init _ => hclose init

theorem parallel_assignment : InStep σ assignment assignment := by
  unfold assignment
  refine .bind .next fun following _ => ?_
  dsimp only
  split
  · exact .reject_bind _ (σ.syntactic rfl) _ _
  · exact parallel_ended .semicolon Stmt.assign

theorem parallel_writing : InStep σ writing writing :=
  .bind .advance fun _ _ => parallel_ended .semicolon Stmt.write

theorem parallel_reading : InStep σ reading reading := by
  unfold reading
  refine .bind .advance fun _ _ => .bind parallel_ident fun target _ => ?_
  refine .bind (.typeOf? _) fun type _ => ?_
  cases type with
  | none => exact .reject _ (σ.syntactic rfl)
  | some type => exact .bind (.expect _) fun _ _ => .pure trivial

theorem parallel_returning : InStep σ returning returning := by
  unfold returning
  refine .bind .advance fun _ _ => .bind (.take _) fun b _ => ?_
  split
  · exact .pure trivial
  · exact parallel_ended .semicolon fun e => Stmt.giveBack (some e)

/-! ## Conditionals and loops -/

/-- The readers of blocks take the same steps, whatever block they read. -/
def BlocksInStep (σ : Scope) (block block' : BlockParser) : Prop :=
  ∀ opener closer stops, InStep σ (block opener closer stops) (block' opener closer stops)

variable {block block' : BlockParser}

theorem parallel_condition : InStep σ condition condition :=
  parallel_ended .thenWord id

theorem parallel_conditional {arms arms' : Token → Parser Arms}
    (hblock : BlocksInStep σ block block')
    (harms : ∀ opener, InStep σ (arms opener) (arms' opener)) :
    InStep σ (conditional block arms) (conditional block' arms') := by
  unfold conditional
  refine .bind .advance fun opener _ => .bind parallel_condition fun _ _ => ?_
  refine .bind (hblock opener _ _) fun _ _ => .bind (harms opener) fun _ _ => ?_
  exact .bind (.expect _) fun _ _ => .pure trivial

theorem parallel_loopBody (hblock : BlocksInStep σ block block') (opener : Token) :
    InStep σ (loopBody block opener) (loopBody block' opener) :=
  .bind (hblock opener _ _) fun _ _ => .bind (.expect _) fun _ _ => .pure trivial

theorem parallel_afterCondition (hblock : BlocksInStep σ block block') (e : Expr) :
    InStep σ (afterCondition block e) (afterCondition block' e) :=
  .bind (.expect _) fun opener _ => .bind (parallel_loopBody hblock opener) fun _ _ => .pure trivial

theorem parallel_conditionFirst (hblock : BlocksInStep σ block block') :
    InStep σ (conditionFirst block) (conditionFirst block') :=
  .bind (.expect _) fun _ _ => .bind parallel_expression fun e _ => parallel_afterCondition hblock e

theorem parallel_countAhead : InStep σ countAhead countAhead := by
  unfold countAhead
  refine .bind .next fun following _ => .bind .current fun t _ => ?_
  split <;> exact .pure trivial

theorem parallel_loopFirst {rounds rounds' : Token → Parser (List Stmt × Expr)}
    (hblock : BlocksInStep σ block block')
    (hrounds : ∀ opener, InStep σ (rounds opener) (rounds' opener)) :
    InStep σ (loopFirst block rounds) (loopFirst block' rounds') := by
  unfold loopFirst
  refine .bind (.expect _) fun opener _ => .bind (.take _) fun b _ => ?_
  dsimp only
  split
  · refine .bind parallel_expression fun _ _ => ?_
    exact .bind (parallel_loopBody hblock opener) fun _ _ => .pure trivial
  · refine .bind parallel_countAhead fun b _ => ?_
    split
    · refine .bind parallel_expression fun _ _ => .bind (.expect _) fun _ _ => ?_
      exact .bind (parallel_loopBody hblock opener) fun _ _ => .pure trivial
    · exact .bind (hrounds opener) fun _ _ => .pure trivial

/-- The readers of statements, blocks, arms and rounds with two fuels. -/
structure ParallelStatements (σ : Scope) (i j : Nat) : Prop where
  statement : InStep σ (statementWithin i) (statementWithin j)
  block : BlocksInStep σ (blockWithin i) (blockWithin j)
  arms : ∀ opener, InStep σ (armsWithin i opener) (armsWithin j opener)
  rounds : ∀ opener, InStep σ (roundsWithin i opener) (roundsWithin j opener)

namespace ParallelStatements

variable {i j : Nat}

theorem statement_step (h : ParallelStatements σ i j) :
    InStep σ (statementWithin (i + 1)) (statementWithin (j + 1)) := by
  rw [statementWithin_succ, statementWithin_succ]
  refine .bind .current fun t _ => ?_
  split
  next type _ => exact parallel_declarationOf type
  next => exact parallel_assignment
  next => exact parallel_conditional h.block h.arms
  next => exact parallel_loopFirst h.block h.rounds
  next => exact parallel_conditionFirst h.block
  next => exact parallel_writing
  next => exact parallel_reading
  next => exact parallel_returning
  next => exact .reject _ (σ.syntactic rfl)

theorem block_step (h : ParallelStatements σ i j) :
    BlocksInStep σ (blockWithin (i + 1)) (blockWithin (j + 1)) := by
  intro opener closer stops
  rw [blockWithin, blockWithin]
  refine .bind .current fun t _ => ?_
  dsimp only
  split
  · exact .pure trivial
  · split
    · exact .reject_bind _ (σ.syntactic rfl) _ _
    · refine .bind h.statement fun _ _ => ?_
      exact .bind (h.block opener closer stops) fun _ _ => .pure trivial

theorem arms_step (h : ParallelStatements σ i j) (opener : Token) :
    InStep σ (armsWithin (i + 1) opener) (armsWithin (j + 1) opener) := by
  rw [armsWithin, armsWithin]
  refine .bind (.take _) fun b _ => ?_
  split
  · exact .pure trivial
  · refine .bind (.take _) fun b _ => ?_
    split
    · exact .bind (h.block opener _ _) fun _ _ => .pure trivial
    · refine .bind parallel_condition fun _ _ => .bind (h.block opener _ _) fun _ _ => ?_
      exact .bind (h.arms opener) fun _ _ => .pure trivial

theorem rounds_step (h : ParallelStatements σ i j) (opener : Token) :
    InStep σ (roundsWithin (i + 1) opener) (roundsWithin (j + 1) opener) := by
  rw [roundsWithin, roundsWithin]
  refine .bind .current fun t _ => ?_
  split
  next =>
    refine .bind .advance fun _ _ => .bind parallel_expression fun e _ => ?_
    refine .bind (.take _) fun b _ => ?_
    dsimp only
    split
    · exact .pure trivial
    · refine .bind .current fun following _ => ?_
      split
      · exact .reject_bind _ (σ.syntactic rfl) _ _
      · refine .bind (parallel_afterCondition h.block e) fun _ _ => ?_
        exact .bind (h.rounds opener) fun _ _ => .pure trivial
  next => exact .reject _ (σ.syntactic rfl)
  next =>
    dsimp only
    split
    · exact .reject_bind _ (σ.syntactic rfl) _ _
    · refine .bind h.statement fun _ _ => ?_
      exact .bind (h.rounds opener) fun _ _ => .pure trivial

end ParallelStatements

theorem parallel_statements : ∀ i j, ParallelStatements σ i j := by
  refine forall_fuels ?_ ?_ ?_
  · intro j
    exact ⟨.noFuelLeft, fun _ _ _ => .noFuelLeft, fun _ => .noFuelLeft, fun _ => .noFuelLeft⟩
  · intro i h
    exact ⟨.noFuelRight h.statement, fun _ _ _ => .noFuelRight (h.block _ _ _),
      fun _ => .noFuelRight (h.arms _), fun _ => .noFuelRight (h.rounds _)⟩
  · intro i j h
    exact ⟨h.statement_step, h.block_step, h.arms_step, h.rounds_step⟩

/-! ## Whole streams -/

theorem parallel_statement : InStep σ statement statement :=
  .get fun _ _ => (parallel_statements _ _).statement

theorem parallel_statementsWithin : ∀ i j, InStep σ (statementsWithin i) (statementsWithin j) := by
  refine forall_fuels (fun _ => .noFuelLeft) (fun _ h => .noFuelRight h) ?_
  intro i j h
  rw [statementsWithin, statementsWithin]
  refine .bind .current fun t _ => ?_
  dsimp only
  split
  · exact .pure trivial
  · exact .bind parallel_statement fun _ _ => .bind h fun _ _ => .pure trivial

theorem parallel_program : InStep σ program program := by
  unfold program
  refine .bind (.expect _) fun _ _ => .get fun _ _ => ?_
  refine .bind (parallel_statementsWithin _ _) fun _ _ => .bind (.expect _) fun _ _ => ?_
  exact .bind (.expect _) fun _ _ => .pure trivial

theorem parallel_expressionOnly : InStep σ expressionOnly expressionOnly :=
  parallel_ended .endOfInput id

end Bukvar.Parsing
