import Bukvar.Proofs.Parsing.Movement

/-!
# Both endings of a run

`Meets` describes a run that may end in a result or in a problem, and says something about the
state in either case: a problem is raised at a place, and that place tells what it is about. A run
that ends in a fault is not described.

An expression is made of few kinds of tokens. Its reader passes only these, declares nothing, and
raises no problem that concerns statements (`meets_expression`), so readers of statements know all
that matters to them from the tokens that they pass themselves.
-/

namespace Bukvar

open Token (Kind Stream)
open Diagnostic (Problem)

/-! ## Passed tokens -/

/-- The tokens that have been passed. -/
def Token.Stream.behind (s : Stream) : List Token :=
  s.tokens.toList.take s.cursor

theorem Token.Stream.behind_step {s : Stream} (h : s.cursor < s.tokens.size) :
    s.step.behind = s.behind ++ [s.current] := by
  have hget : s.tokens.toList[s.cursor]? = some s.current := by
    rw [Array.getElem?_toList, getElem?_current h]
  change s.tokens.toList.take (s.cursor + 1) = s.tokens.toList.take s.cursor ++ [s.current]
  rw [List.take_add_one, hget, Option.toList_some]

theorem Token.Stream.length_behind {s : Stream} (h : s.cursor < s.tokens.size) :
    s.behind.length = s.cursor := by
  rw [behind, List.length_take, Array.length_toList]
  omega

/-- The kinds of tokens of which expressions are made. -/
def Token.Kind.isInline : Kind → Bool
  | .leftParen | .rightParen | .operator _ => true
  | kind => kind.hasText

/-- Whether a problem concerns the statements around an expression, their blocks and their
declarations. -/
def Diagnostic.Problem.concernsStatements : Problem → Bool
  | unterminated .. | loopWithoutCondition | undeclared _ => true
  | _ => false

namespace Parsing

variable {α β : Type} {m n : State} {E : Located Problem → State → Prop}

/-! ## Results and problems -/

/-- The run from the state ends in a result with the property `Q` or in a problem with the property
`E`, unless it ends in a fault. -/
def Meets (x : Parser α) (m : State) (Q : α → State → Prop)
    (E : Located Problem → State → Prop) : Prop :=
  match x m with
  | .ok a n => Q a n
  | .error (.problem p) n => E p n
  | .error (.fault _) _ => True

/-- The property says something of problems that concern statements only. -/
def Silent (E : Located Problem → State → Prop) : Prop :=
  ∀ p n, p.value.concernsStatements = false → E p n

theorem Meets.of_ok {x : Parser α} {Q : α → State → Prop} {a : α} (h : Meets x m Q E)
    (hrun : x m = .ok a n) : Q a n := by
  rw [Meets, hrun] at h
  exact h

theorem Meets.of_problem {x : Parser α} {Q : α → State → Prop} {p : Located Problem}
    (h : Meets x m Q E) (hrun : x m = .error (.problem p) n) : E p n := by
  rw [Meets, hrun] at h
  exact h

theorem meets_pure {Q : α → State → Prop} {a : α} (h : Q a m) : Meets (pure a) m Q E :=
  h

theorem meets_bind {x : Parser α} {f : α → Parser β} {Q : α → State → Prop}
    {R : β → State → Prop} (hx : Meets x m Q E) (hf : ∀ a n, Q a n → Meets (f a) n R E) :
    Meets (x >>= f) m R E := by
  unfold Meets at hx
  change match EStateM.bind x f m with
    | .ok b n => R b n
    | .error (.problem p) n => E p n
    | .error (.fault _) _ => True
  unfold EStateM.bind
  cases hrun : x m with
  | ok a n =>
    rw [hrun] at hx
    exact hf a n hx
  | error e n =>
    rw [hrun] at hx
    cases e <;> exact hx

theorem Meets.mono {x : Parser α} {Q R : α → State → Prop} (hx : Meets x m Q E)
    (h : ∀ a n, Q a n → R a n) : Meets x m R E := by
  unfold Meets at hx ⊢
  cases hrun : x m with
  | ok a n =>
    rw [hrun] at hx
    exact h a n hx
  | error e n =>
    rw [hrun] at hx
    cases e <;> exact hx

theorem meets_map {x : Parser α} {g : α → β} {R : β → State → Prop}
    (hx : Meets x m (fun a n => R (g a) n) E) : Meets (g <$> x) m R E :=
  meets_bind hx fun _ _ h => meets_pure h

/-- The run itself can be used behind it. -/
theorem Meets.run {x : Parser α} {Q : α → State → Prop} (hx : Meets x m Q E) :
    Meets x m (fun a n => x m = .ok a n ∧ Q a n) E := by
  unfold Meets at hx ⊢
  cases hrun : x m with
  | ok a n =>
    rw [hrun] at hx
    exact ⟨rfl, hx⟩
  | error e n =>
    rw [hrun] at hx
    cases e <;> exact hx

/-- A step that looks at the state and does not change it. -/
theorem meets_of_ok {x : Parser α} {f : α → Parser β} {a : α} {R : β → State → Prop}
    (hx : x m = .ok a m) (h : Meets (f a) m R E) : Meets (x >>= f) m R E := by
  unfold Meets
  rw [bind_of_ok hx]
  exact h

theorem meets_reject {Q : α → State → Prop} {span : Span} {problem : Problem}
    (h : E ⟨span, problem⟩ m) : Meets (reject span problem) m Q E :=
  h

theorem meets_reject_bind {f : α → Parser β} {Q : β → State → Prop} {span : Span}
    {problem : Problem} (h : E ⟨span, problem⟩ m) :
    Meets (reject span problem >>= f) m Q E :=
  h

/-! ## Single tokens -/

/-- A token that is refused raises a problem that concerns no statements. -/
theorem meets_pass (hE : Silent E) {step : Stream → Except Token.Refusal (Token × Stream)}
    {f : Token → Parser β} {R : β → State → Prop}
    (h : ∀ t s, step m.stream = .ok (t, s) → Meets (f t) { m with stream := s } R E) :
    Meets (pass step >>= f) m R E := by
  refine meets_bind (Q := fun t n => step m.stream = .ok (t, n.stream) ∧
    n = { m with stream := n.stream }) ?_ ?_
  · unfold Meets pass
    cases hstep : step m.stream with
    | ok pair => exact ⟨rfl, rfl⟩
    | error refusal =>
      refine hE _ _ ?_
      cases refusal <;> rfl
  · rintro t n ⟨hstep, hn⟩
    rw [hn]
    exact h t n.stream hstep

theorem meets_advance (hE : Silent E) {f : Token → Parser β} {R : β → State → Prop}
    (h : m.stream.cursor < m.stream.tokens.size → m.stream.current.kind ≠ .endOfInput →
      Meets (f m.stream.current) { m with stream := m.stream.step } R E) :
    Meets (advance >>= f) m R E := by
  refine meets_pass hE ?_
  intro t s hstep
  obtain ⟨⟨hkind, hlt⟩, rfl, rfl⟩ := Stream.advance_eq_ok_iff.mp hstep
  exact h hlt hkind

theorem meets_expect (hE : Silent E) {kind : Kind} (hkind : kind ≠ .endOfInput)
    {f : Token → Parser β} {R : β → State → Prop}
    (h : m.stream.cursor < m.stream.tokens.size → m.stream.current.kind = kind →
      Meets (f m.stream.current) { m with stream := m.stream.step } R E) :
    Meets (expect kind >>= f) m R E := by
  refine meets_pass hE ?_
  intro t s hstep
  obtain ⟨⟨hk, hlt⟩, rfl, rfl⟩ := (Stream.expect_eq_ok_iff hkind).mp hstep
  exact h hlt hk

theorem meets_expect_end (hE : Silent E) {f : Token → Parser β} {R : β → State → Prop}
    (h : ∀ t, Meets (f t) m R E) : Meets (expect .endOfInput >>= f) m R E := by
  by_cases hk : m.stream.current.kind = .endOfInput
  · exact meets_of_ok (expect_end_of_kind hk) (h _)
  · refine meets_pass hE ?_
    intro t s hstep
    rw [Stream.expect, if_pos hk] at hstep
    cases hstep

theorem meets_ident (hE : Silent E) {f : Ident → Parser β} {R : β → State → Prop}
    (h : m.stream.cursor < m.stream.tokens.size → m.stream.current.kind = .name →
      Meets (f ⟨m.stream.current.text, m.stream.current.span⟩)
        { m with stream := m.stream.step } R E) :
    Meets (ident >>= f) m R E := by
  unfold ident
  rw [bind_assoc]
  exact meets_expect hE (by decide) h

theorem meets_take {kind : Kind} {f : Bool → Parser β} {R : β → State → Prop}
    (hyes : m.stream.current.kind = kind →
      Meets (f true) { m with stream := m.stream.step } R E)
    (hno : m.stream.current.kind ≠ kind → Meets (f false) m R E) :
    Meets (take kind >>= f) m R E := by
  have hrun : take kind m = .ok (m.stream.take kind).1
      { m with stream := (m.stream.take kind).2 } := rfl
  unfold Meets
  rw [bind_of_ok hrun]
  unfold Stream.take
  by_cases h : m.stream.current.kind = kind
  · rw [if_pos h]
    exact hyes h
  · rw [if_neg h]
    exact hno h

theorem meets_cover {a b : Span} {f : Span → Parser β} {R : β → State → Prop}
    (h : ∀ span, a.cover b = .ok span → Meets (f span) m R E) :
    Meets (cover a b >>= f) m R E := by
  refine meets_bind (Q := fun span n => a.cover b = .ok span ∧ n = m) ?_ ?_
  · unfold Meets cover
    cases a.cover b with
    | ok span => exact ⟨rfl, rfl⟩
    | error fault => trivial
  · rintro span _ ⟨hspan, rfl⟩
    exact h span hspan

/-! ## Expressions -/

/-- Between the states only tokens of expressions have been passed, and nothing was declared. -/
inductive Inline : State → State → Prop
  | refl (m : State) : Inline m m
  | step {m n : State} (hlt : m.stream.cursor < m.stream.tokens.size)
      (hkind : m.stream.current.kind.isInline = true)
      (h : Inline { m with stream := m.stream.step } n) : Inline m n

namespace Inline

variable {r : State}

theorem one (hlt : m.stream.cursor < m.stream.tokens.size)
    (hkind : m.stream.current.kind.isInline = true) :
    Inline m { m with stream := m.stream.step } :=
  .step hlt hkind (.refl _)

theorem trans (h : Inline m n) (h' : Inline n r) : Inline m r := by
  induction h with
  | refl m => exact h'
  | step hlt hkind _ ih => exact .step hlt hkind (ih h')

theorem declared (h : Inline m n) : n.declared = m.declared := by
  induction h with
  | refl m => rfl
  | step _ _ _ ih => exact ih

theorem tokens (h : Inline m n) : n.stream.tokens = m.stream.tokens := by
  induction h with
  | refl m => rfl
  | step _ _ _ ih => exact ih

end Inline

theorem meets_literal {span : Span} {value : Except Decimal.LiteralError α}
    {wrap : α → Span → Expr} (hE : Silent E) {Q : Expr → State → Prop} (h : ∀ e, Q e m) :
    Meets (literal span value wrap) m Q E := by
  unfold literal
  cases value with
  | ok a => exact meets_pure (h _)
  | error e =>
    refine meets_reject (hE _ _ ?_)
    cases e <;> rfl

theorem meets_operand {inner : Parser Expr} {t : Token} (hE : Silent E)
    (hinner : Meets inner m (fun _ n => Inline m n) E) :
    Meets (operand inner t) m (fun _ n => t.kind.isInline = true ∧ Inline m n) E := by
  unfold operand
  cases hk : t.kind with
  | name => exact meets_pure ⟨rfl, .refl m⟩
  | integerLiteral | doubleLiteral | stringLiteral =>
    exact meets_literal hE fun _ => ⟨rfl, .refl m⟩
  | leftParen =>
    refine meets_bind hinner ?_
    intro e n hn
    refine meets_expect hE (by decide) ?_
    intro hlt hkind
    refine meets_cover ?_
    intro span _
    exact meets_pure ⟨rfl, hn.trans (.one hlt (by rw [hkind]; rfl))⟩
  | _ => exact meets_reject (hE _ _ rfl)

theorem meets_joined {inner : Parser Expr} (op : Operator) (lhs : Expr) (hE : Silent E)
    (hinner : Meets inner m (fun _ n => Inline m n) E) :
    Meets (joined inner op lhs) m (fun _ n => Inline m n) E := by
  unfold joined
  dsimp only
  split
  · exact meets_reject_bind (hE _ _ rfl)
  · refine meets_bind hinner ?_
    intro rhs n hn
    refine meets_of_ok (current_eq n) ?_
    split
    · exact meets_reject_bind (hE _ _ rfl)
    · refine meets_cover ?_
      intro span _
      exact meets_pure hn

/-- Both readers of expressions, by induction on their fuel. -/
theorem meets_expression_and_operators (hE : Silent E) (fuel : Nat) :
    (∀ least m, Meets (expressionWithin fuel least) m (fun _ n => Inline m n) E) ∧
      ∀ least lhs m, Meets (operatorsWithin fuel least lhs) m (fun _ n => Inline m n) E := by
  induction fuel with
  | zero => exact ⟨fun _ _ => trivial, fun _ _ _ => trivial⟩
  | succ fuel ih =>
    obtain ⟨hexpr, hops⟩ := ih
    constructor
    · intro least m
      rw [expressionWithin]
      refine meets_advance hE ?_
      intro hlt _
      -- The first token is known to belong to an expression only when its operand has been read.
      refine meets_bind (meets_operand hE (hexpr 0 _)) ?_
      rintro lhs n ⟨hkind, hn⟩
      refine (hops least lhs n).mono ?_
      intro _ r hr
      exact .step hlt hkind (hn.trans hr)
    · intro least lhs m
      rw [operatorsWithin_succ]
      refine meets_of_ok (current_eq m) ?_
      split
      next op hkind =>
        split
        · exact meets_pure (.refl m)
        · refine meets_advance hE ?_
          intro hlt _
          refine meets_bind (meets_joined op lhs hE (hexpr op.rightPower _)) ?_
          intro e n hn
          refine (hops least e n).mono ?_
          intro _ r hr
          exact .step hlt (by rw [hkind]; rfl) (hn.trans hr)
      next => exact meets_pure (.refl m)

/-- An expression passes its own kinds of tokens and raises its own kinds of problems. -/
theorem meets_expression (hE : Silent E) : Meets expression m (fun _ n => Inline m n) E :=
  meets_of_ok rfl ((meets_expression_and_operators hE _).1 0 m)

theorem inline_of_expression {e : Expr} (h : expression m = .ok e n) : Inline m n :=
  (meets_expression (E := fun _ _ => True) fun _ _ _ => trivial).of_ok h

end Parsing

end Bukvar
