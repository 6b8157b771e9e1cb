import Bukvar.Proofs.Grammar.Legible
import Bukvar.Proofs.Grammar.Occurrences
import Bukvar.Proofs.Parsing.Endings
import Bukvar.Proofs.Parsing.ProgramSafety
import Bukvar.Proofs.Parsing.Source

/-!
# What a program is read from

Every expression of a program was read by the reader of expressions, every variable that a statement
names by itself is a name token, and the targets of reading have the types under which they were
known. `Accounts` says this of one stretch of a run, and stretches that follow each other add up
(`Accounts.trans`). It holds on all streams, with or without a mark at their end.

* `accounts_readers`: statements, blocks, arms and rounds.
* `accounts_program`, `accounts_of_parse`: whole programs.
-/

namespace Bukvar

open Token (Kind Stream)

/-- The variable stands at one of the name tokens. -/
def Ident.NamedBy (tokens : Array Token) (id : Ident) : Prop :=
  ∃ t ∈ tokens, t.kind = .name ∧ id = ⟨t.text, t.span⟩

namespace Parsing

open Diagnostic (Problem)

variable {m n r : State} {es us : List Expr} {os vs : List Occurrence} {tokens : Array Token}

/-- The expression was read somewhere among the tokens. -/
def ReadFrom (tokens : Array Token) (e : Expr) : Prop :=
  ∃ m n : State, m.stream.tokens = tokens ∧ expression m = .ok e n

/-- Between the states the expressions were read and the variables were named. -/
structure Accounts (m n : State) (es : List Expr) (os : List Occurrence) : Prop where
  tokens : n.stream.tokens = m.stream.tokens
  exprs : ∀ e ∈ es, ReadFrom m.stream.tokens e
  idents : ∀ o ∈ os, o.ident.NamedBy m.stream.tokens
  follows : Follows m.declared os
  declared : n.declared = declaredAfter m.declared os

namespace Accounts

theorem refl (m : State) : Accounts m m [] [] :=
  ⟨rfl, nofun, nofun, trivial, rfl⟩

theorem trans (h : Accounts m n es os) (h' : Accounts n r us vs) :
    Accounts m r (es ++ us) (os ++ vs) := by
  obtain ⟨htokens, hexprs, hidents, hfollows, hdeclared⟩ := h'
  rw [h.tokens] at htokens hexprs hidents
  rw [h.declared] at hfollows hdeclared
  refine ⟨htokens, ?_, ?_, follows_append.mpr ⟨h.follows, hfollows⟩, ?_⟩
  · intro e he
    exact (List.mem_append.mp he).elim (h.exprs e) (hexprs e)
  · intro o ho
    exact (List.mem_append.mp ho).elim (h.idents o) (hidents o)
  · rw [hdeclared, declaredAfter_append]

/-- Some of the expressions, in any order. -/
theorem of_subset (h : Accounts m n es os) (hsub : us ⊆ es) : Accounts m n us os :=
  { h with exprs := fun e he => h.exprs e (hsub he) }

theorem step (h : Accounts m n es os) :
    Accounts m { n with stream := n.stream.step } es os :=
  { h with }

theorem expr {e : Expr} (h : Accounts m n es os) (hrun : expression n = .ok e r) :
    Accounts m r (es ++ [e]) os := by
  have hinline := inline_of_expression hrun
  refine ⟨hinline.tokens.trans h.tokens, ?_, h.idents, h.follows,
    hinline.declared.trans h.declared⟩
  intro e' he
  rcases List.mem_append.mp he with he | he
  · exact h.exprs e' he
  · rw [List.mem_singleton.mp he]
    exact ⟨n, r, h.tokens, hrun⟩

theorem declare {id : Ident} (h : Accounts m n es os) (type : VarType)
    (hid : id.NamedBy m.stream.tokens) :
    Accounts m { n with declared := (id.name, type) :: n.declared } es
      (os ++ [.declares type id]) := by
  have hone : Accounts n { n with declared := (id.name, type) :: n.declared } []
      [.declares type id] :=
    ⟨rfl, nofun, by simpa [Occurrence.ident, h.tokens] using hid, trivial, rfl⟩
  simpa using h.trans hone

theorem read {id : Ident} {type : VarType} (h : Accounts m n es os)
    (hid : id.NamedBy m.stream.tokens) (htype : n.declared.lookup id.name = some type) :
    Accounts m n es (os ++ [.reads id type]) := by
  have hone : Accounts n n [] [.reads id type] :=
    ⟨rfl, nofun, by simpa [Occurrence.ident, h.tokens] using hid, ⟨htype, trivial⟩, rfl⟩
  simpa using h.trans hone

end Accounts

/-! ## Statements without blocks -/

/-- Nothing is said of problems. -/
def Any : Located Problem → State → Prop :=
  fun _ _ => True

theorem silent_any : Silent Any :=
  fun _ _ _ => trivial

variable {α : Type} {R : α → State → Prop}

theorem accounts_expression {f : Expr → Parser α} (h : Accounts m n es os)
    (hf : ∀ e r, Accounts m r (es ++ [e]) os → Meets (f e) r R Any) :
    Meets (expression >>= f) n R Any := by
  refine meets_bind (meets_expression silent_any).run ?_
  rintro e r ⟨hrun, -⟩
  exact hf e r (h.expr hrun)

theorem namedBy_current (h : Accounts m n es os) (hname : n.stream.current.kind = .name) :
    Ident.NamedBy m.stream.tokens ⟨n.stream.current.text, n.stream.current.span⟩ :=
  ⟨_, h.tokens ▸ n.stream.look_mem 0, hname, rfl⟩

/-- The statement that was read, accounted for. -/
def Read (m : State) (stmt : Stmt) (n : State) : Prop :=
  Accounts m n stmt.exprs stmt.occurrences

theorem accounts_declaration (type : VarType) : Meets (declarationOf type) m (Read m) Any := by
  unfold declarationOf declarator
  refine meets_advance silent_any ?_
  intro _ _
  refine meets_ident silent_any ?_
  intro _ hname
  have hid := namedBy_current (Accounts.refl m).step hname
  have hread := (Accounts.refl m).step.step
  have hclose (init : Option Expr) (n : State) (h : Accounts m n init.toList []) {id : Ident}
      (hid : id.NamedBy m.stream.tokens) :
      Meets (do
        let _ ← expect .semicolon
        declare id.name type
        return Stmt.declare type id init) n (Read m) Any := by
    refine meets_expect silent_any (by decide) ?_
    intro _ _
    exact h.step.declare type hid
  refine meets_take ?_ ?_
  · intro _
    refine meets_bind (meets_map (R := fun init n => Accounts m n init.toList [])
      ((meets_expression silent_any).run.mono ?_)) ?_
    · rintro e n ⟨hrun, -⟩
      exact hread.step.expr hrun
    · intro init n h
      exact hclose init n h hid
  · intro _
    exact hclose none _ hread hid

theorem accounts_assignment : Meets assignment m (Read m) Any := by
  unfold assignment
  refine meets_of_ok (next_eq m) ?_
  dsimp only
  split
  · exact meets_reject_bind trivial
  · refine accounts_expression (.refl m) ?_
    intro e n h
    refine meets_expect silent_any (by decide) ?_
    intro _ _
    exact meets_pure h.step

theorem accounts_writing : Meets writing m (Read m) Any := by
  unfold writing
  refine meets_advance silent_any ?_
  intro _ _
  refine accounts_expression (Accounts.refl m).step ?_
  intro e n h
  refine meets_expect silent_any (by decide) ?_
  intro _ _
  exact meets_pure h.step

theorem accounts_reading : Meets reading m (Read m) Any := by
  unfold reading
  refine meets_advance silent_any ?_
  intro _ _
  refine meets_ident silent_any ?_
  intro _ hname
  have hid := namedBy_current (Accounts.refl m).step hname
  refine meets_of_ok (a := m.declared.lookup _) rfl ?_
  split
  next => exact meets_reject trivial
  next type htype =>
    refine meets_expect silent_any (by decide) ?_
    intro _ _
    exact meets_pure ((Accounts.refl m).step.step.step.read hid htype)

theorem accounts_returning : Meets returning m (Read m) Any := by
  unfold returning
  refine meets_advance silent_any ?_
  intro _ _
  refine meets_take ?_ ?_
  · intro _
    exact meets_pure (Accounts.refl m).step.step
  · intro _
    refine accounts_expression (Accounts.refl m).step ?_
    intro e n h
    refine meets_expect silent_any (by decide) ?_
    intro _ _
    exact meets_pure h.step

/-! ## Blocks, arms and rounds -/

/-- The statements that were read, accounted for. -/
def ReadBlock (m : State) (block : List Stmt) (n : State) : Prop :=
  Accounts m n (blockExprs block) (blockOccurrences block)

/-- The rounds of a loop that were read, with the condition behind them. -/
def ReadRounds (m : State) (pair : List Stmt × Expr) (n : State) : Prop :=
  Accounts m n (blockExprs pair.1 ++ [pair.2]) (blockOccurrences pair.1)

/-- A reader of blocks whose blocks are accounted for. -/
def Accountable (block : BlockParser) : Prop :=
  ∀ opener closer stops m, Meets (block opener closer stops) m (ReadBlock m) Any

theorem ReadBlock.cons {stmt : Stmt} {rest : List Stmt} (h : Read m stmt n)
    (hrest : ReadBlock n rest r) : ReadBlock m (stmt :: rest) r :=
  h.trans hrest

theorem ReadRounds.cons {stmt : Stmt} {pair : List Stmt × Expr} (h : Read m stmt n)
    (hrest : ReadRounds n pair r) : ReadRounds m (stmt :: pair.1, pair.2) r := by
  have h' := Accounts.trans h hrest
  rwa [← List.append_assoc] at h'

theorem accounts_condition {f : Expr → Parser α} (h : Accounts m n es os)
    (hf : ∀ e r, Accounts m r (es ++ [e]) os → Meets (f e) r R Any) :
    Meets (condition >>= f) n R Any := by
  unfold condition
  simp only [bind_assoc]
  refine accounts_expression h ?_
  intro e n h
  refine meets_expect silent_any (by decide) ?_
  intro _ _
  exact hf e _ h.step

theorem accounts_conditional {block : BlockParser} {arms : Token → Parser Arms}
    (hblock : Accountable block)
    (harms : ∀ opener m, Meets (arms opener) m
      (fun a n => Accounts m n a.exprs a.occurrences) Any) :
    Meets (conditional block arms) m (Read m) Any := by
  unfold conditional
  refine meets_advance silent_any ?_
  intro _ _
  refine accounts_condition (Accounts.refl m).step ?_
  intro first n₁ h₁
  refine meets_bind (hblock _ _ _ n₁) ?_
  intro body n₂ h₂
  refine meets_bind (harms _ n₂) ?_
  intro rest n₃ h₃
  refine meets_expect silent_any (by decide) ?_
  intro _ _
  refine meets_pure (((h₁.trans h₂).trans h₃).step.of_subset ?_)
  simp [Stmt.exprs]

theorem accounts_loopBody {block : BlockParser} (hblock : Accountable block) (opener : Token)
    {f : List Stmt → Parser α} (h : Accounts m n es os)
    (hf : ∀ body r, Accounts m r (es ++ blockExprs body) (os ++ blockOccurrences body) →
      Meets (f body) r R Any) :
    Meets (loopBody block opener >>= f) n R Any := by
  unfold loopBody
  simp only [bind_assoc]
  refine meets_bind (hblock opener _ _ n) ?_
  intro body n' hbody
  refine meets_expect silent_any (by decide) ?_
  intro _ _
  exact hf body _ (h.trans hbody).step

theorem accounts_afterCondition {block : BlockParser} (hblock : Accountable block) {e : Expr}
    (h : Accounts m n [e] []) : Meets (afterCondition block e) n (Read m) Any := by
  unfold afterCondition
  refine meets_expect silent_any (by decide) ?_
  intro _ _
  refine accounts_loopBody hblock _ h.step ?_
  intro body r hbody
  exact meets_pure hbody

theorem accounts_conditionFirst {block : BlockParser} (hblock : Accountable block) :
    Meets (conditionFirst block) m (Read m) Any := by
  unfold conditionFirst
  refine meets_expect silent_any (by decide) ?_
  intro _ _
  refine accounts_expression (Accounts.refl m).step ?_
  intro e n h
  exact accounts_afterCondition hblock h

theorem accounts_loopFirst {block : BlockParser} {rounds : Token → Parser (List Stmt × Expr)}
    (hblock : Accountable block)
    (hrounds : ∀ opener m, Meets (rounds opener) m (ReadRounds m) Any) :
    Meets (loopFirst block rounds) m (Read m) Any := by
  unfold loopFirst
  refine meets_expect silent_any (by decide) ?_
  intro _ _
  have hread := (Accounts.refl m).step
  refine meets_take ?_ ?_
  · intro _
    refine accounts_expression hread.step ?_
    intro e n h
    refine accounts_loopBody hblock _ h ?_
    intro body r hbody
    exact meets_pure hbody
  · intro _
    obtain ⟨b, hcount⟩ := exists_countAhead { m with stream := m.stream.step }
    refine meets_of_ok hcount ?_
    dsimp only
    split
    · refine accounts_expression hread ?_
      intro e n h
      refine meets_expect silent_any (by decide) ?_
      intro _ _
      refine accounts_loopBody hblock _ h.step ?_
      intro body r hbody
      exact meets_pure hbody
    · refine meets_bind (hrounds _ _) ?_
      intro pair n h
      refine meets_pure ((hread.trans h).of_subset ?_)
      simp [Stmt.exprs]

/-- What the readers of statements give with the fuel is accounted for. -/
structure AccountableWithin (fuel : Nat) : Prop where
  statement : ∀ m, Meets (statementWithin fuel) m (Read m) Any
  block : Accountable (blockWithin fuel)
  arms : ∀ opener m, Meets (armsWithin fuel opener) m
    (fun a n => Accounts m n a.exprs a.occurrences) Any
  rounds : ∀ opener m, Meets (roundsWithin fuel opener) m (ReadRounds m) Any

variable {fuel : Nat}

theorem accounts_statementWithin (h : AccountableWithin fuel) (m : State) :
    Meets (statementWithin (fuel + 1)) m (Read m) Any := by
  rw [statementWithin_succ]
  refine meets_of_ok (current_eq m) ?_
  split
  next type _ => exact accounts_declaration type
  next => exact accounts_assignment
  next => exact accounts_conditional h.block h.arms
  next => exact accounts_loopFirst h.block h.rounds
  next => exact accounts_conditionFirst h.block
  next => exact accounts_writing
  next => exact accounts_reading
  next => exact accounts_returning
  next => exact meets_reject trivial

theorem accounts_blockWithin (h : AccountableWithin fuel) : Accountable (blockWithin (fuel + 1)) := by
  intro opener closer stops m
  rw [blockWithin]
  refine meets_of_ok (current_eq m) ?_
  dsimp only
  split
  · exact meets_pure (Accounts.refl m)
  · split
    · exact meets_reject_bind trivial
    · refine meets_bind (h.statement m) ?_
      intro stmt n₁ h₁
      refine meets_bind (h.block opener closer stops n₁) ?_
      intro rest n₂ h₂
      exact meets_pure (ReadBlock.cons h₁ h₂)

theorem accounts_armsWithin (h : AccountableWithin fuel) (opener : Token) (m : State) :
    Meets (armsWithin (fuel + 1) opener) m (fun a n => Accounts m n a.exprs a.occurrences) Any := by
  rw [armsWithin]
  have hread := (Accounts.refl m).step
  refine meets_take ?_ fun _ => meets_pure (Accounts.refl m)
  intro _
  refine meets_take ?_ ?_
  · intro _
    refine accounts_condition hread.step ?_
    intro also n₁ h₁
    refine meets_bind (h.block opener _ _ n₁) ?_
    intro body n₂ h₂
    refine meets_bind (h.arms opener n₂) ?_
    intro rest n₃ h₃
    refine meets_pure (((h₁.trans h₂).trans h₃).of_subset ?_)
    simp [Arms.exprs]
  · intro _
    refine meets_bind (h.block opener _ _ _) ?_
    intro body n h
    exact meets_pure (hread.trans h)

theorem accounts_roundsWithin (h : AccountableWithin fuel) (opener : Token) (m : State) :
    Meets (roundsWithin (fuel + 1) opener) m (ReadRounds m) Any := by
  rw [roundsWithin]
  refine meets_of_ok (current_eq m) ?_
  split
  next =>
    refine meets_advance silent_any ?_
    intro _ _
    refine accounts_expression (Accounts.refl m).step ?_
    intro e n₁ h₁
    refine meets_take ?_ ?_
    · intro _
      exact meets_pure h₁.step
    · intro _
      refine meets_of_ok (current_eq n₁) ?_
      dsimp only
      split
      · exact meets_reject_bind trivial
      · refine meets_bind (accounts_afterCondition h.block h₁) ?_
        intro stmt n₂ h₂
        refine meets_bind (h.rounds opener n₂) ?_
        intro pair n₃ h₃
        exact meets_pure (ReadRounds.cons h₂ h₃)
  next => exact meets_reject trivial
  next =>
    dsimp only
    split
    · exact meets_reject_bind trivial
    · refine meets_bind (h.statement m) ?_
      intro stmt n₁ h₁
      refine meets_bind (h.rounds opener n₁) ?_
      intro pair n₂ h₂
      exact meets_pure (ReadRounds.cons h₁ h₂)

/-- All readers of statements, by induction on their fuel. -/
theorem accounts_readers (fuel : Nat) : AccountableWithin fuel := by
  induction fuel with
  | zero => exact ⟨fun _ => trivial, fun _ _ _ _ => trivial, fun _ _ => trivial, fun _ _ => trivial⟩
  | succ fuel ih =>
    exact ⟨accounts_statementWithin ih, accounts_blockWithin ih, accounts_armsWithin ih,
      accounts_roundsWithin ih⟩

/-! ## Whole programs -/

theorem accounts_statementsWithin (fuel : Nat) (m : State) :
    Meets (statementsWithin fuel) m (ReadBlock m) Any := by
  induction fuel generalizing m with
  | zero => trivial
  | succ fuel ih =>
    rw [statementsWithin]
    refine meets_of_ok (current_eq m) ?_
    dsimp only
    split
    · exact meets_pure (Accounts.refl m)
    · refine meets_bind (meets_of_ok rfl ((accounts_readers _).statement m)) ?_
      intro stmt n₁ h₁
      refine meets_bind (ih n₁) ?_
      intro rest n₂ h₂
      exact meets_pure (ReadBlock.cons h₁ h₂)

theorem accounts_program {p : Program} (hrun : program m = .ok p n) : ReadBlock m p n := by
  have hmeets : Meets program m (ReadBlock m) Any := by
    unfold program
    refine meets_expect silent_any (by decide) ?_
    intro _ _
    refine meets_of_ok rfl ?_
    refine meets_bind (accounts_statementsWithin _ _) ?_
    intro body n₁ h₁
    refine meets_expect silent_any (by decide) ?_
    intro _ _
    refine meets_expect_end silent_any ?_
    intro _
    exact meets_pure ((Accounts.refl m).step.trans h₁).step
  exact hmeets.of_ok hrun

/-- A program that was read from a buffer, with nothing declared in advance. -/
theorem accounts_of_parse {buffer : Token.Buffer} {p : Program}
    (h : (parseProgram buffer).outcome = .ok p) :
    ∃ m n : State, m.stream.tokens = buffer.tokens ∧ m.declared = [] ∧ ReadBlock m p n := by
  obtain ⟨s, n, htokens, hrun⟩ := exists_run_of_parse h
  exact ⟨⟨s, []⟩, n, htokens, rfl, accounts_program hrun⟩

end Parsing

end Bukvar
