import Bukvar.Proofs.Parsing.Likeness

/-!
# Readers of programs do not look at places

The readers of statements go on with what the readers of expressions keep: from states that are
alike they read the same statements up to places, and declare the same variables. The fuel is the
same on both sides, because the same number of tokens is left.

* `agree_readers`: statements, blocks, arms and rounds.
* `agree_program`: whole programs.
-/

namespace Bukvar.Parsing

open Token (Kind Stream)

/-- Optional expressions that differ at most in their places. -/
abbrev SameInit (a b : Option Expr) : Prop :=
  a.map Expr.bare = b.map Expr.bare

/-- Statements that differ at most in their places. -/
abbrev SameStmt (s t : Stmt) : Prop :=
  s.bare = t.bare

/-- Blocks that differ at most in their places. -/
abbrev SameBlock (as bs : List Stmt) : Prop :=
  bareBlock as = bareBlock bs

/-- Arms that differ at most in their places. -/
abbrev SameArms (a b : Arms) : Prop :=
  a.bare = b.bare

/-- Bodies with their conditions that differ at most in their places. -/
abbrev SameRounds (p q : List Stmt × Expr) : Prop :=
  SameBlock p.1 q.1 ∧ SameExpr p.2 q.2

theorem sameBlock_cons {s t : Stmt} {as bs : List Stmt} (h : SameStmt s t) (hs : SameBlock as bs) :
    SameBlock (s :: as) (t :: bs) := by
  rw [SameBlock, bareBlock, bareBlock, h, hs]

/-! ## Statements without blocks -/

theorem agree_declare (name : String) (type : VarType) :
    Agree (fun _ _ => True) (declare name type) (declare name type) :=
  fun _ _ hs => .ok trivial ⟨hs.stream, congrArg ((name, type) :: ·) hs.declared⟩

theorem agree_typeOf? (name : String) : Agree Eq (typeOf? name) (typeOf? name) :=
  fun _ _ hs => .ok (congrArg (·.lookup name) hs.declared) hs

theorem agree_declaration (type : VarType) :
    Agree SameStmt (declarationOf type) (declarationOf type) := by
  unfold declarationOf declarator
  refine agree_bind agree_advance ?_
  intro _ _ _
  refine agree_bind agree_ident ?_
  intro x y hname
  have hclose {a b : Option Expr} (h : SameInit a b) :
      Agree SameStmt (do
        let _ ← expect .semicolon
        declare x.name type
        return Stmt.declare type x a) (do
        let _ ← expect .semicolon
        declare y.name type
        return Stmt.declare type y b) := by
    refine agree_bind (agree_expect .semicolon) ?_
    intro _ _ _
    rw [(Ident.mk.inj hname).1]
    refine agree_bind (agree_declare y.name type) ?_
    intro _ _ _
    apply agree_pure
    rw [SameStmt, Stmt.bare, Stmt.bare, hname, h]
  refine agree_bind (agree_take _) ?_
  rintro taken _ rfl
  dsimp only
  split
  · refine agree_bind (agree_map (S := SameInit) agree_expression ?_) ?_
    · intro d e hde
      exact congrArg some hde
    · intro a b h
      exact hclose h
  · refine agree_bind (agree_pure (R := SameInit) rfl) ?_
    intro a b h
    exact hclose h

theorem agree_assignment : Agree SameStmt assignment assignment := by
  unfold assignment
  refine agree_bind agree_next ?_
  intro t u hface
  dsimp only
  rw [hface.kind]
  split
  · exact agree_reject_bind _ _ _ _ _
  · refine agree_bind agree_expression ?_
    intro d e hde
    refine agree_bind (agree_expect .semicolon) ?_
    intro _ _ _
    apply agree_pure
    rw [SameStmt, Stmt.bare, Stmt.bare, hde]

theorem agree_writing : Agree SameStmt writing writing := by
  unfold writing
  refine agree_bind agree_advance ?_
  intro _ _ _
  refine agree_bind agree_expression ?_
  intro d e hde
  refine agree_bind (agree_expect .semicolon) ?_
  intro _ _ _
  apply agree_pure
  rw [SameStmt, Stmt.bare, Stmt.bare, hde]

theorem agree_reading : Agree SameStmt reading reading := by
  unfold reading
  refine agree_bind agree_advance ?_
  intro _ _ _
  refine agree_bind agree_ident ?_
  intro x y hname
  rw [(Ident.mk.inj hname).1]
  refine agree_bind (agree_typeOf? y.name) ?_
  rintro declared _ rfl
  cases declared with
  | none => exact agree_reject _ _ _
  | some type =>
    refine agree_bind (agree_expect .semicolon) ?_
    intro _ _ _
    apply agree_pure
    rw [SameStmt, Stmt.bare, Stmt.bare, hname]

theorem agree_returning : Agree SameStmt returning returning := by
  unfold returning
  refine agree_bind agree_advance ?_
  intro _ _ _
  refine agree_bind (agree_take _) ?_
  rintro taken _ rfl
  split
  · exact agree_pure rfl
  · refine agree_bind agree_expression ?_
    intro d e hde
    refine agree_bind (agree_expect .semicolon) ?_
    intro _ _ _
    apply agree_pure
    rw [SameStmt, Stmt.bare, Stmt.bare, Option.map_some, Option.map_some, hde]

/-! ## Statements with blocks -/

/-- A reader of blocks does not look at places. -/
def AgreeBlock (block : BlockParser) : Prop :=
  ∀ closer stops t u, SameFace t u →
    Agree SameBlock (block t closer stops) (block u closer stops)

/-- A reader that is told the token which opened a block does not look at its place. -/
def AgreeOpened {α : Type} (R : α → α → Prop) (x : Token → Parser α) : Prop :=
  ∀ t u, SameFace t u → Agree R (x t) (x u)

variable {block : BlockParser}

theorem agree_condition : Agree SameExpr condition condition := by
  refine agree_bind agree_expression ?_
  intro d e hde
  refine agree_bind (agree_expect .thenWord) ?_
  intro _ _ _
  exact agree_pure hde

theorem agree_conditional {arms : Token → Parser Arms} (hblock : AgreeBlock block)
    (harms : AgreeOpened SameArms arms) :
    Agree SameStmt (conditional block arms) (conditional block arms) := by
  unfold conditional
  refine agree_bind agree_advance ?_
  intro t u hface
  refine agree_bind agree_condition ?_
  intro d e hde
  refine agree_bind (hblock _ _ t u hface) ?_
  intro as bs hbody
  refine agree_bind (harms t u hface) ?_
  intro a b hrest
  refine agree_bind (agree_expect .endIf) ?_
  intro _ _ _
  apply agree_pure
  rw [SameStmt, Stmt.bare, Stmt.bare, hde, hbody, hrest]

theorem agree_loopBody (hblock : AgreeBlock block) : AgreeOpened SameBlock (loopBody block) := by
  intro t u hface
  unfold loopBody
  refine agree_bind (hblock _ _ t u hface) ?_
  intro as bs hbody
  refine agree_bind (agree_expect .loopEnd) ?_
  intro _ _ _
  exact agree_pure hbody

theorem agree_afterCondition (hblock : AgreeBlock block) {d e : Expr} (hde : SameExpr d e) :
    Agree SameStmt (afterCondition block d) (afterCondition block e) := by
  unfold afterCondition
  refine agree_bind (agree_expect .loopBegin) ?_
  intro t u hface
  refine agree_bind (agree_loopBody hblock t u hface) ?_
  intro as bs hbody
  apply agree_pure
  rw [SameStmt, Stmt.bare, Stmt.bare, hde, hbody]

theorem agree_conditionFirst (hblock : AgreeBlock block) :
    Agree SameStmt (conditionFirst block) (conditionFirst block) := by
  unfold conditionFirst
  refine agree_bind (agree_expect .whileWord) ?_
  intro _ _ _
  refine agree_bind agree_expression ?_
  intro d e hde
  exact agree_afterCondition hblock hde

theorem agree_countAhead : Agree Eq countAhead countAhead := by
  unfold countAhead
  refine agree_bind agree_next ?_
  intro t u hnext
  refine agree_bind agree_current ?_
  intro t' u' hcurrent
  rw [hnext.kind, hcurrent.kind]
  cases u'.kind <;> exact agree_pure rfl

theorem agree_loopFirst {rounds : Token → Parser (List Stmt × Expr)} (hblock : AgreeBlock block)
    (hrounds : AgreeOpened SameRounds rounds) :
    Agree SameStmt (loopFirst block rounds) (loopFirst block rounds) := by
  unfold loopFirst
  refine agree_bind (agree_expect .loopBegin) ?_
  intro t u hface
  refine agree_bind (agree_take _) ?_
  rintro taken _ rfl
  dsimp only
  split
  · refine agree_bind agree_expression ?_
    intro d e hde
    refine agree_bind (agree_loopBody hblock t u hface) ?_
    intro as bs hbody
    apply agree_pure
    rw [SameStmt, Stmt.bare, Stmt.bare, hde, hbody]
  · refine agree_bind agree_countAhead ?_
    rintro counted _ rfl
    split
    · refine agree_bind agree_expression ?_
      intro d e hde
      refine agree_bind (agree_expect .times) ?_
      intro _ _ _
      refine agree_bind (agree_loopBody hblock t u hface) ?_
      intro as bs hbody
      apply agree_pure
      rw [SameStmt, Stmt.bare, Stmt.bare, hde, hbody]
    · refine agree_bind (hrounds t u hface) ?_
      intro p q hpq
      apply agree_pure
      rw [SameStmt, Stmt.bare, Stmt.bare, hpq.1, hpq.2]

/-! ## All statements -/

/-- What is kept by the readers of statements with that much fuel. -/
structure AgreeReaders (fuel : Nat) : Prop where
  statement : Agree SameStmt (statementWithin fuel) (statementWithin fuel)
  block : AgreeBlock (blockWithin fuel)
  arms : AgreeOpened SameArms (armsWithin fuel)
  rounds : AgreeOpened SameRounds (roundsWithin fuel)

variable {fuel : Nat}

theorem agree_statementWithin (h : AgreeReaders fuel) :
    Agree SameStmt (statementWithin (fuel + 1)) (statementWithin (fuel + 1)) := by
  rw [statementWithin_succ]
  refine agree_bind agree_current ?_
  intro t u hface
  rw [hface.kind]
  cases u.kind with
  | typeWord type => exact agree_declaration type
  | name => exact agree_assignment
  | ifWord => exact agree_conditional h.block h.arms
  | loopBegin => exact agree_loopFirst h.block h.rounds
  | whileWord => exact agree_conditionFirst h.block
  | writeWord => exact agree_writing
  | readWord => exact agree_reading
  | returnWord => exact agree_returning
  | _ => exact agree_reject _ _ _

theorem agree_blockWithin (h : AgreeReaders fuel) : AgreeBlock (blockWithin (fuel + 1)) := by
  intro closer stops t u hface
  rw [blockWithin, blockWithin]
  refine agree_bind agree_current ?_
  intro t' u' hcurrent
  dsimp only
  rw [hcurrent.kind, hface.kind]
  split
  · exact agree_pure rfl
  · split
    · exact agree_reject_bind _ _ _ _ _
    · refine agree_bind h.statement ?_
      intro s s' hstmt
      refine agree_bind (h.block closer stops t u hface) ?_
      intro as bs hrest
      exact agree_pure (sameBlock_cons hstmt hrest)

theorem agree_armsWithin (h : AgreeReaders fuel) :
    AgreeOpened SameArms (armsWithin (fuel + 1)) := by
  intro t u hface
  rw [armsWithin, armsWithin]
  refine agree_bind (agree_take _) ?_
  rintro other _ rfl
  split
  · exact agree_pure rfl
  · refine agree_bind (agree_take _) ?_
    rintro also _ rfl
    split
    · refine agree_bind (h.block _ _ t u hface) ?_
      intro as bs hbody
      apply agree_pure
      rw [SameArms, Arms.bare, Arms.bare, hbody]
    · refine agree_bind agree_condition ?_
      intro d e hde
      refine agree_bind (h.block _ _ t u hface) ?_
      intro as bs hbody
      refine agree_bind (h.arms t u hface) ?_
      intro a b hrest
      apply agree_pure
      rw [SameArms, Arms.bare, Arms.bare, hde, hbody, hrest]

/-- What follows a statement among the rounds. -/
theorem agree_laterRounds (h : AgreeReaders fuel) {t u : Token} (hface : SameFace t u)
    {s s' : Stmt} (hstmt : SameStmt s s') :
    Agree SameRounds (do
      let (rest, last) ← roundsWithin fuel t
      return (s :: rest, last)) (do
      let (rest, last) ← roundsWithin fuel u
      return (s' :: rest, last)) := by
  refine agree_bind (h.rounds t u hface) ?_
  intro p q hpq
  exact agree_pure ⟨sameBlock_cons hstmt hpq.1, hpq.2⟩

/-- Rounds that start with neither a condition nor the end of the loop. -/
theorem agree_otherRounds (h : AgreeReaders fuel) {t u : Token} (hface : SameFace t u)
    (kind : Kind) :
    Agree SameRounds (do
      if kind.endsBlock then reject t.span (.unterminated t.kind .loopEnd)
      let stmt ← statementWithin fuel
      let (rest, last) ← roundsWithin fuel t
      return (stmt :: rest, last)) (do
      if kind.endsBlock then reject u.span (.unterminated u.kind .loopEnd)
      let stmt ← statementWithin fuel
      let (rest, last) ← roundsWithin fuel u
      return (stmt :: rest, last)) := by
  dsimp only
  rw [hface.kind]
  split
  · exact agree_reject_bind _ _ _ _ _
  · refine agree_bind h.statement ?_
    intro s s' hstmt
    exact agree_laterRounds h hface hstmt

theorem agree_roundsWithin (h : AgreeReaders fuel) :
    AgreeOpened SameRounds (roundsWithin (fuel + 1)) := by
  intro t u hface
  rw [roundsWithin, roundsWithin]
  refine agree_bind agree_current ?_
  intro t' u' hcurrent
  rw [hcurrent.kind]
  cases u'.kind with
  | whileWord =>
    refine agree_bind agree_advance ?_
    intro _ _ _
    refine agree_bind agree_expression ?_
    intro d e hde
    refine agree_bind (agree_take _) ?_
    rintro ended _ rfl
    split
    · exact agree_pure ⟨rfl, hde⟩
    · refine agree_bind agree_current ?_
      intro t₁ u₁ hfollowing
      dsimp only
      rw [hfollowing.kind]
      split
      · exact agree_reject_bind _ _ _ _ _
      · refine agree_bind (agree_afterCondition h.block hde) ?_
        intro s s' hstmt
        exact agree_laterRounds h hface hstmt
  | loopEnd => exact agree_reject _ _ _
  | _ => exact agree_otherRounds h hface _

theorem agree_readers (fuel : Nat) : AgreeReaders fuel := by
  induction fuel with
  | zero =>
    refine ⟨agree_fail _ _, ?_, ?_, ?_⟩
    · intro closer stops t u _
      exact agree_fail _ _
    · intro t u _
      exact agree_fail _ _
    · intro t u _
      exact agree_fail _ _
  | succ fuel ih =>
    exact ⟨agree_statementWithin ih, agree_blockWithin ih, agree_armsWithin ih,
      agree_roundsWithin ih⟩

/-! ## Programs -/

theorem agree_statement : Agree SameStmt statement statement := by
  refine agree_bind agree_get ?_
  intro m n hs
  rw [hs.stream.remaining]
  exact (agree_readers _).statement

theorem agree_statementsWithin (fuel : Nat) :
    Agree SameBlock (statementsWithin fuel) (statementsWithin fuel) := by
  induction fuel with
  | zero => exact agree_fail _ _
  | succ fuel ih =>
    rw [statementsWithin]
    refine agree_bind agree_current ?_
    intro t u hface
    dsimp only
    rw [hface.kind]
    split
    · exact agree_pure rfl
    · refine agree_bind agree_statement ?_
      intro s s' hstmt
      refine agree_bind ih ?_
      intro as bs hrest
      exact agree_pure (sameBlock_cons hstmt hrest)

/-- Programs are read in the same way from states that are alike. -/
theorem agree_program : Agree SameBlock program program := by
  unfold program
  refine agree_bind (agree_expect .programBegin) ?_
  intro _ _ _
  refine agree_bind agree_get ?_
  intro m n hs
  rw [hs.stream.remaining]
  refine agree_bind (agree_statementsWithin _) ?_
  intro as bs hbody
  refine agree_bind (agree_expect .programEnd) ?_
  intro _ _ _
  refine agree_bind (agree_expect .endOfInput) ?_
  intro _ _ _
  exact agree_pure hbody

end Bukvar.Parsing
