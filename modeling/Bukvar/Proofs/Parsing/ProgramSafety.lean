import Bukvar.Proofs.Parsing.Safety

/-!
# Reading programs is safe

The readers of statements run without a fault on every stream whose spans can be covered. A
statement passes a token before it reads a block, and a block reads a statement before it goes on.
Twice the number of tokens left therefore bounds the fuel of both, with one more for a block.

The arms of a conditional and the rounds of a loop take tokens, which is safe because a statement
does not end with a token that could be taken there (`endsStatement`).

* `safe_readers`: statements, blocks, arms and rounds.
* `safe_program`, `safe_expressionOnly`: whole streams.
-/

namespace Bukvar

open Token (Kind Stream)

/-- The kinds of tokens with which a statement can end. -/
def Token.Kind.endsStatement : Kind → Bool
  | .semicolon | .endIf | .loopEnd => true
  | _ => false

/-- Behind a body no arm follows a token that was passed as one. -/
theorem Token.Stream.EndedBy.ne_elseWord {s : Stream}
    (h : s.EndedBy fun kind => kind = .thenWord ∨ kind.endsStatement = true) :
    s.EndedBy (· ≠ .elseWord) := by
  refine h.mono ?_
  intro kind hkind he
  rw [he] at hkind
  revert hkind
  decide

namespace Parsing

variable {G : Span → Prop} {m : State}

/-- A statement has been read: a token was passed, and the last one ends statements. -/
structure BehindStatement (m n : State) : Prop where
  less : n.stream.remaining < m.stream.remaining
  ended : n.stream.EndedBy (·.endsStatement = true)

/-! ## Statements without blocks -/

/-- The token that ends a statement, if none was passed before it or some were. -/
theorem safe_ending {α : Type} {kind : Kind} (hend : kind.endsStatement = true)
    {n : State} {f : Token → Parser α} {Q : α → State → Prop}
    (hle : n.stream.remaining ≤ m.stream.remaining)
    (hf : ∀ t n', BehindStatement m n' → Safe G (f t) n' Q) :
    Safe G (expect kind >>= f) n Q := by
  have hkind : kind ≠ .endOfInput := by
    rintro rfl
    cases hend
  refine safe_bind (safe_expect hkind) ?_
  rintro t n' - ⟨rfl, hpassed⟩
  have hless := hpassed.less
  refine hf t n' ⟨by omega, hpassed.ended.mono ?_⟩
  rintro kind rfl
  exact hend

theorem safe_declaration (type : VarType) :
    Safe G (declarationOf type) m fun _ n => BehindStatement m n := by
  unfold declarationOf declarator
  refine safe_bind safe_advance ?_
  intro t n₁ _ hpassed
  refine safe_bind safe_ident ?_
  rintro name n₂ - ⟨-, hname, hended⟩
  have hless := hpassed.less
  have htake : n₂.stream.EndedBy (· ≠ .operator .assign) := by
    refine hended.mono ?_
    rintro kind rfl
    exact nofun
  refine safe_bind (safe_take nofun htake) ?_
  intro b n₃ hmoves₃ _
  have hle₃ := hmoves₃.remaining_le
  have hclose (init : Option Expr) (n₄ : State)
      (hle₄ : n₄.stream.remaining ≤ n₃.stream.remaining) :
      Safe G (do
        let _ ← expect .semicolon
        declare name.name type
        return Stmt.declare type name init) n₄ fun _ n => BehindStatement m n := by
    refine safe_ending (m := m) rfl (by omega) ?_
    intro _ n₅ hbehind _
    exact ⟨.refl _, hbehind.less, hbehind.ended⟩
  dsimp only
  split
  · refine safe_bind (safe_map (R := fun _ _ => True) safe_expression fun _ _ _ _ => trivial) ?_
    intro init n₄ hmoves₄ _
    exact hclose init n₄ hmoves₄.remaining_le
  · exact safe_of_ok rfl (hclose none n₃ (Nat.le_refl _))

theorem safe_assignment : Safe G assignment m fun _ n => BehindStatement m n := by
  unfold assignment
  refine safe_of_ok (next_eq m) ?_
  dsimp only
  split
  · exact safe_reject_bind fun hspans => hspans.look 1
  · refine safe_bind safe_expression ?_
    intro e n _ hexpr
    have hless := hexpr.2
    refine safe_ending (m := m) rfl (by omega) ?_
    intro _ n' hbehind
    exact safe_pure hbehind

theorem safe_writing : Safe G writing m fun _ n => BehindStatement m n := by
  unfold writing
  refine safe_bind safe_advance ?_
  intro t n₁ _ hpassed
  refine safe_bind safe_expression ?_
  intro e n₂ _ hexpr
  have hless := hpassed.less
  have hless' := hexpr.2
  refine safe_ending (m := m) rfl (by omega) ?_
  intro _ n' hbehind
  exact safe_pure hbehind

theorem safe_reading : Safe G reading m fun _ n => BehindStatement m n := by
  unfold reading
  refine safe_bind safe_advance ?_
  intro t n₁ _ hpassed
  refine safe_bind safe_ident ?_
  rintro target n₂ - ⟨hspan, hname, -⟩
  refine safe_of_ok (a := n₂.declared.lookup target.name) rfl ?_
  have hless := hpassed.less
  split
  · exact safe_reject fun _ => hspan
  · refine safe_ending (m := m) rfl (by omega) ?_
    intro _ n' hbehind
    exact safe_pure hbehind

theorem safe_returning (hkind : m.stream.current.kind = .returnWord) :
    Safe G returning m fun _ n => BehindStatement m n := by
  unfold returning
  refine safe_bind safe_advance ?_
  intro t n₁ _ hpassed
  have hless := hpassed.less
  have htake : n₁.stream.EndedBy (· ≠ .semicolon) := by
    refine hpassed.ended.mono ?_
    rintro kind rfl
    rw [hpassed.token, hkind]
    exact nofun
  refine safe_bind (safe_take nofun htake) ?_
  rintro b n₂ - (⟨rfl, hless', hended⟩ | ⟨rfl, rfl, -⟩)
  · refine safe_pure ⟨by omega, hended.mono ?_⟩
    rintro kind rfl
    rfl
  · refine safe_bind safe_expression ?_
    intro e n₃ _ hexpr
    have hless' := hexpr.2
    refine safe_ending (m := m) rfl (by omega) ?_
    intro _ n' hbehind
    exact safe_pure hbehind

/-! ## Blocks, arms and rounds -/

/-- With that much fuel statements are read safely. -/
def SafeStatement (G : Span → Prop) (fuel : Nat) : Prop :=
  ∀ m, 2 * m.stream.remaining < fuel →
    Safe G (statementWithin fuel) m fun _ n => BehindStatement m n

/-- A reader of blocks is safe on streams with few enough tokens ahead. What ended the stream before
the block can have ended it behind the block, too. -/
def SafeBlock (G : Span → Prop) (fuel : Nat) (block : BlockParser) : Prop :=
  ∀ opener closer stops m p, 2 * m.stream.remaining + 1 < fuel → G opener.span →
    m.stream.EndedBy p →
    Safe G (block opener closer stops) m fun _ n =>
      n.stream.EndedBy fun kind => p kind ∨ kind.endsStatement = true

/-- With that much fuel the arms of a conditional are read safely. -/
def SafeArms (G : Span → Prop) (fuel : Nat) : Prop :=
  ∀ opener m, 2 * m.stream.remaining + 2 < fuel → G opener.span →
    m.stream.EndedBy (· ≠ .elseWord) → Safe G (armsWithin fuel opener) m fun _ _ => True

/-- With that much fuel the rounds of a loop are read safely. -/
def SafeRounds (G : Span → Prop) (fuel : Nat) : Prop :=
  ∀ opener m, 2 * m.stream.remaining + 1 < fuel → G opener.span →
    Safe G (roundsWithin fuel opener) m fun _ n => n.stream.EndedBy (· = .loopEnd)

theorem safe_condition :
    Safe G condition m fun _ n => n.stream.remaining < m.stream.remaining ∧
      n.stream.EndedBy (· = .thenWord) := by
  refine safe_bind safe_expression ?_
  intro e n₁ _ hexpr
  refine safe_bind (safe_expect nofun) ?_
  rintro t n₂ - ⟨hkind, hpassed⟩
  have hless := hexpr.2
  have hless' := hpassed.less
  exact safe_pure ⟨by omega, hkind ▸ hpassed.ended⟩

theorem safe_conditional {fuel : Nat} (hblock : SafeBlock G fuel (blockWithin fuel))
    (harms : SafeArms G fuel) (hfuel : 2 * m.stream.remaining ≤ fuel) :
    Safe G (conditional (blockWithin fuel) (armsWithin fuel)) m fun _ n => BehindStatement m n := by
  unfold conditional
  refine safe_bind safe_advance ?_
  intro opener n₁ _ hpassed
  refine safe_bind safe_condition ?_
  rintro first n₂ - ⟨hless₂, hended⟩
  have hless₁ := hpassed.less
  refine safe_bind (hblock opener _ _ n₂ _ (by omega) hpassed.span hended) ?_
  intro body n₃ hmoves₃ hended₃
  have hle₃ := hmoves₃.remaining_le
  refine safe_bind (harms opener n₃ (by omega) hpassed.span hended₃.ne_elseWord) ?_
  intro rest n₄ hmoves₄ _
  have hle₄ := hmoves₄.remaining_le
  refine safe_ending (m := m) rfl (by omega) ?_
  intro _ n₅ hbehind
  exact safe_pure hbehind

theorem safe_loopBody {fuel : Nat} (hblock : SafeBlock G fuel (blockWithin fuel)) {n : State}
    {opener : Token} (hopener : G opener.span) (hfuel : 2 * n.stream.remaining + 1 < fuel)
    (hle : n.stream.remaining ≤ m.stream.remaining) :
    Safe G (loopBody (blockWithin fuel) opener) n fun _ n' => BehindStatement m n' := by
  unfold loopBody
  refine safe_bind (hblock opener _ _ n (fun _ => True) hfuel hopener fun _ => trivial) ?_
  intro body n₁ hmoves _
  have hle₁ := hmoves.remaining_le
  refine safe_ending (m := m) rfl (by omega) ?_
  intro _ n₂ hbehind
  exact safe_pure hbehind

theorem safe_afterCondition {fuel : Nat} (hblock : SafeBlock G fuel (blockWithin fuel))
    {n : State} (e : Expr) (hfuel : 2 * n.stream.remaining ≤ fuel)
    (hle : n.stream.remaining ≤ m.stream.remaining) :
    Safe G (afterCondition (blockWithin fuel) e) n fun _ n' => BehindStatement m n' := by
  unfold afterCondition
  refine safe_bind (safe_expect nofun) ?_
  rintro opener n₁ - ⟨-, hpassed⟩
  have hless := hpassed.less
  refine safe_bind (safe_loopBody (m := m) hblock hpassed.span (by omega) (by omega)) ?_
  intro body n₂ _ hbehind
  exact safe_pure hbehind

theorem safe_conditionFirst {fuel : Nat} (hblock : SafeBlock G fuel (blockWithin fuel))
    (hfuel : 2 * m.stream.remaining ≤ fuel) :
    Safe G (conditionFirst (blockWithin fuel)) m fun _ n => BehindStatement m n := by
  unfold conditionFirst
  refine safe_bind (safe_expect nofun) ?_
  rintro _ n₁ - ⟨-, hpassed⟩
  refine safe_bind safe_expression ?_
  intro e n₂ _ hexpr
  have hless₁ := hpassed.less
  have hless₂ := hexpr.2
  exact safe_afterCondition hblock e (by omega) (by omega)

/-- Looking for a count changes nothing. -/
theorem exists_countAhead (m : State) : ∃ b, countAhead m = .ok b m := by
  unfold countAhead
  rw [bind_of_ok (next_eq m), bind_of_ok (current_eq m)]
  cases m.stream.current.kind <;> exact ⟨_, rfl⟩

theorem safe_loopFirst {fuel : Nat} (hblock : SafeBlock G fuel (blockWithin fuel))
    (hrounds : SafeRounds G fuel) (hfuel : 2 * m.stream.remaining ≤ fuel) :
    Safe G (loopFirst (blockWithin fuel) (roundsWithin fuel)) m fun _ n => BehindStatement m n := by
  unfold loopFirst
  refine safe_bind (safe_expect nofun) ?_
  rintro opener n₁ - ⟨hkind, hpassed⟩
  have hless₁ := hpassed.less
  have htake : n₁.stream.EndedBy (· ≠ .whileWord) := by
    refine hpassed.ended.mono ?_
    rintro kind rfl
    rw [hkind]
    exact nofun
  refine safe_bind (safe_take nofun htake) ?_
  intro b n₂ hmoves₂ _
  have hle₂ := hmoves₂.remaining_le
  dsimp only
  split
  · refine safe_bind safe_expression ?_
    intro e n₃ _ hexpr
    have hless₃ := hexpr.2
    refine safe_bind (safe_loopBody (m := m) hblock hpassed.span (by omega) (by omega)) ?_
    intro body n₄ _ hbehind
    exact safe_pure hbehind
  · obtain ⟨b, hcount⟩ := exists_countAhead n₂
    refine safe_of_ok hcount ?_
    split
    · refine safe_bind safe_expression ?_
      intro e n₃ _ hexpr
      have hless₃ := hexpr.2
      refine safe_bind (safe_expect nofun) ?_
      rintro _ n₄ - ⟨-, hpassed₄⟩
      have hless₄ := hpassed₄.less
      refine safe_bind (safe_loopBody (m := m) hblock hpassed.span (by omega) (by omega)) ?_
      intro body n₅ _ hbehind
      exact safe_pure hbehind
    · refine safe_bind (hrounds opener n₂ (by omega) hpassed.span) ?_
      intro pair n₃ hmoves₃ hended
      have hle₃ := hmoves₃.remaining_le
      refine safe_pure ⟨by omega, hended.mono ?_⟩
      rintro kind rfl
      rfl

theorem safe_statementWithin {fuel : Nat} (hblock : SafeBlock G fuel (blockWithin fuel))
    (harms : SafeArms G fuel) (hrounds : SafeRounds G fuel) : SafeStatement G (fuel + 1) := by
  intro m hfuel
  rw [statementWithin_succ]
  refine safe_of_ok (current_eq m) ?_
  split
  next type _ => exact safe_declaration type
  next => exact safe_assignment
  next => exact safe_conditional hblock harms (by omega)
  next => exact safe_loopFirst hblock hrounds (by omega)
  next => exact safe_conditionFirst hblock (by omega)
  next => exact safe_writing
  next => exact safe_reading
  next hkind => exact safe_returning hkind
  next => exact safe_reject fun hspans => hspans.look 0

theorem safe_blockWithin {fuel : Nat} (hstatement : SafeStatement G fuel)
    (hblock : SafeBlock G fuel (blockWithin fuel)) :
    SafeBlock G (fuel + 1) (blockWithin (fuel + 1)) := by
  intro opener closer stops m p hfuel hopener hended
  rw [blockWithin]
  refine safe_of_ok (current_eq m) ?_
  dsimp only
  split
  · exact safe_pure (hended.mono fun _ => .inl)
  · split
    · exact safe_reject_bind fun _ => hopener
    · refine safe_bind (hstatement m (by omega)) ?_
      intro stmt n₁ _ hbehind
      have hless := hbehind.less
      refine safe_bind (hblock opener closer stops n₁ _ (by omega) hopener hbehind.ended) ?_
      intro rest n₂ _ hended'
      exact safe_pure (hended'.mono fun _ h => .inr (h.elim id id))

theorem safe_armsWithin {fuel : Nat} (hblock : SafeBlock G fuel (blockWithin fuel))
    (harms : SafeArms G fuel) : SafeArms G (fuel + 1) := by
  intro opener m hfuel hopener hended
  rw [armsWithin]
  refine safe_bind (safe_take nofun hended) ?_
  rintro b n₁ hmoves₁ (⟨rfl, hless₁, hended₁⟩ | ⟨rfl, rfl, -⟩)
  · have htake : n₁.stream.EndedBy (· ≠ .ifWord) := by
      refine hended₁.mono ?_
      rintro kind rfl
      exact nofun
    refine safe_bind (safe_take nofun htake) ?_
    intro b n₂ hmoves₂ _
    have hle₂ := hmoves₂.remaining_le
    split
    · refine safe_bind (hblock opener _ _ n₂ (fun _ => True) (by omega) hopener
        fun _ => trivial) ?_
      intro body n₃ _ _
      exact safe_pure trivial
    · refine safe_bind safe_condition ?_
      rintro also n₃ - ⟨hless₃, hended₃⟩
      refine safe_bind (hblock opener _ _ n₃ _ (by omega) hopener hended₃) ?_
      intro body n₄ hmoves₄ hended₄
      have hle₄ := hmoves₄.remaining_le
      refine safe_bind (harms opener n₄ (by omega) hopener hended₄.ne_elseWord) ?_
      intro rest n₅ _ _
      exact safe_pure trivial
  · exact safe_pure trivial

theorem safe_roundsWithin {fuel : Nat} (hstatement : SafeStatement G fuel)
    (hblock : SafeBlock G fuel (blockWithin fuel)) (hrounds : SafeRounds G fuel) :
    SafeRounds G (fuel + 1) := by
  intro opener m hfuel hopener
  rw [roundsWithin]
  refine safe_of_ok (current_eq m) ?_
  split
  next =>
    refine safe_bind safe_advance ?_
    intro _ n₁ _ hpassed
    have hless₁ := hpassed.less
    refine safe_bind safe_expression ?_
    intro e n₂ _ hexpr
    have hless₂ := hexpr.2
    have htake : n₂.stream.EndedBy (· ≠ .loopEnd) := by
      refine hexpr.1.ended.mono ?_
      rintro kind hkind rfl
      cases hkind
    refine safe_bind (safe_take (by decide) htake) ?_
    rintro b n₃ - (⟨rfl, -, hended⟩ | ⟨rfl, rfl, -⟩)
    · exact safe_pure hended
    · refine safe_of_ok (current_eq n₃) ?_
      dsimp only
      split
      · exact safe_reject_bind fun hspans => hspans.look 0
      · refine safe_bind (safe_afterCondition (m := n₁) hblock e (by omega) (by omega)) ?_
        intro stmt n₄ _ hbehind
        have hless₄ := hbehind.less
        refine safe_bind (hrounds opener n₄ (by omega) hopener) ?_
        intro pair n₅ _ hended
        exact safe_pure hended
  next => exact safe_reject fun _ => hopener
  next =>
    dsimp only
    split
    · exact safe_reject_bind fun _ => hopener
    · refine safe_bind (hstatement m (by omega)) ?_
      intro stmt n₁ _ hbehind
      have hless := hbehind.less
      refine safe_bind (hrounds opener n₁ (by omega) hopener) ?_
      intro pair n₂ _ hended
      exact safe_pure hended

/-- All readers of statements, by induction on their fuel. -/
theorem safe_readers (fuel : Nat) :
    SafeStatement G fuel ∧ SafeBlock G fuel (blockWithin fuel) ∧ SafeArms G fuel ∧
      SafeRounds G fuel := by
  induction fuel with
  | zero =>
    refine ⟨?_, ?_, ?_, ?_⟩
    · intro m h
      exact absurd h (Nat.not_lt_zero _)
    · intro opener closer stops m p h
      exact absurd h (Nat.not_lt_zero _)
    · intro opener m h
      exact absurd h (Nat.not_lt_zero _)
    · intro opener m h
      exact absurd h (Nat.not_lt_zero _)
  | succ fuel ih =>
    obtain ⟨hstatement, hblock, harms, hrounds⟩ := ih
    exact ⟨safe_statementWithin hblock harms hrounds, safe_blockWithin hstatement hblock,
      safe_armsWithin hblock harms, safe_roundsWithin hstatement hblock hrounds⟩

/-! ## Whole streams -/

theorem safe_statement : Safe G statement m fun _ n => BehindStatement m n :=
  safe_of_ok rfl ((safe_readers _).1 m (by omega))

theorem safe_statementsWithin (fuel : Nat) :
    ∀ m : State, m.stream.remaining < fuel →
      Safe G (statementsWithin fuel) m fun _ _ => True := by
  induction fuel with
  | zero =>
    intro m h
    exact absurd h (Nat.not_lt_zero _)
  | succ fuel ih =>
    intro m hfuel
    rw [statementsWithin]
    refine safe_of_ok (current_eq m) ?_
    dsimp only
    split
    · exact safe_pure trivial
    · refine safe_bind safe_statement ?_
      intro stmt n _ hbehind
      have hless := hbehind.less
      refine safe_bind (ih n (by omega)) ?_
      intro rest n' _ _
      exact safe_pure trivial

/-- Reading a program ends at the mark of the end, or stops at a problem. -/
theorem safe_program :
    Safe G program m fun _ n => n.stream.current.kind = .endOfInput := by
  unfold program
  refine safe_bind (safe_expect nofun) ?_
  intro _ n₁ _ _
  refine safe_of_ok (a := n₁) rfl ?_
  refine safe_bind (safe_statementsWithin _ n₁ (Nat.lt_succ_self _)) ?_
  intro body n₂ _ _
  refine safe_bind (safe_expect nofun) ?_
  intro _ n₃ _ _
  refine safe_bind safe_expect_end ?_
  rintro _ n₄ - ⟨rfl, hend⟩
  exact safe_pure hend

theorem safe_expressionOnly :
    Safe G expressionOnly m fun _ n => n.stream.current.kind = .endOfInput := by
  unfold expressionOnly
  refine safe_bind safe_expression ?_
  intro e n₁ _ _
  refine safe_bind safe_expect_end ?_
  rintro _ n₂ - ⟨rfl, hend⟩
  exact safe_pure hend

end Parsing

end Bukvar
