import Bukvar.Proofs.Grammar.Bare
import Bukvar.Proofs.Parsing.Movement

/-!
# Readers do not look at places

Two states are alike when they differ only in the places of their tokens. A reader that runs from
both passes the same tokens and ends with results that differ only in their places, or stops at the
same problem (`Matching`, `Agree`).

The one thing that depends on places is the span that covers two others: it can be too long. A run
that ends in such a fault is therefore compared with nothing.

* `agree_bind`: one reader after another.
* `agree_advance`, `agree_expect`, `agree_take`: the readers of single tokens.
* `agree_expression`: reading an expression.
-/

namespace Bukvar

open Token (Kind Stream)
open Diagnostic (Problem)

/-- What a token is, apart from its place. -/
def Token.face (t : Token) : Kind × String :=
  (t.kind, t.text)

/-- Tokens that differ at most in their places. -/
abbrev SameFace (t u : Token) : Prop :=
  t.face = u.face

theorem SameFace.kind {t u : Token} (h : SameFace t u) : t.kind = u.kind :=
  congrArg Prod.fst h

theorem SameFace.text {t u : Token} (h : SameFace t u) : t.text = u.text :=
  congrArg Prod.snd h

/-! ## Streams and states -/

/-- The streams differ only in the places of their tokens. -/
structure Token.Stream.Alike (s t : Stream) : Prop where
  faces : s.tokens.map Token.face = t.tokens.map Token.face
  cursor : s.cursor = t.cursor

namespace Token.Stream.Alike

variable {s t : Stream}

theorem size (h : Alike s t) : s.tokens.size = t.tokens.size := by
  rw [← Array.size_map (f := Token.face), h.faces, Array.size_map]

theorem remaining (h : Alike s t) : s.remaining = t.remaining := by
  rw [Stream.remaining, Stream.remaining, h.size, h.cursor]

theorem step (h : Alike s t) : Alike s.step t.step :=
  ⟨h.faces, congrArg (· + 1) h.cursor⟩

theorem look (h : Alike s t) (n : Nat) : SameFace (s.look n) (t.look n) := by
  have hget (i : Nat) : s.tokens[i]?.map Token.face = t.tokens[i]?.map Token.face := by
    rw [← Array.getElem?_map, h.faces, Array.getElem?_map]
  have hlast : s.last.face = t.last.face := by
    have hback := hget (s.tokens.size - 1)
    rw [s.getElem?_last, h.size, t.getElem?_last] at hback
    exact Option.some.inj hback
  unfold SameFace Stream.look
  rw [h.cursor, ← Option.getD_map Token.face, hget, hlast, Option.getD_map]

theorem kind_current (h : Alike s t) : s.current.kind = t.current.kind :=
  (h.look 0).kind

end Token.Stream.Alike

namespace Parsing

variable {α β : Type}

/-- The states differ only in the places of their tokens. -/
structure Alike (m n : State) : Prop where
  stream : m.stream.Alike n.stream
  declared : m.declared = n.declared

/-! ## Runs from states that are alike -/

/-- Two runs end with related results in states that are alike, or with the same problem, unless
one of them ends with a fault. -/
inductive Matching (R : α → α → Prop) :
    EStateM.Result Failure State α → EStateM.Result Failure State α → Prop
  | ok {a b : α} {m n : State} (h : R a b) (hs : Alike m n) : Matching R (.ok a m) (.ok b n)
  | problem {p q : Located Problem} {m n : State} (h : p.value = q.value) :
    Matching R (.error (.problem p) m) (.error (.problem q) n)
  | faultLeft {f : Fault} {m : State} {r : EStateM.Result Failure State α} :
    Matching R (.error (.fault f) m) r
  | faultRight {f : Fault} {n : State} {r : EStateM.Result Failure State α} :
    Matching R r (.error (.fault f) n)

/-- The readers have matching runs wherever they start from states that are alike. -/
def Agree (R : α → α → Prop) (x y : Parser α) : Prop :=
  ∀ m n, Alike m n → Matching R (x m) (y n)

theorem agree_pure {R : α → α → Prop} {a b : α} (h : R a b) : Agree R (pure a) (pure b) :=
  fun _ _ hs => .ok h hs

theorem agree_bind {R : α → α → Prop} {S : β → β → Prop} {x y : Parser α} {f g : α → Parser β}
    (hx : Agree R x y) (hf : ∀ a b, R a b → Agree S (f a) (g b)) :
    Agree S (x >>= f) (y >>= g) := by
  intro m n hs
  have hrun := hx m n hs
  change Matching S (EStateM.bind x f m) (EStateM.bind y g n)
  unfold EStateM.bind
  generalize x m = r at hrun ⊢
  generalize y n = r' at hrun ⊢
  cases hrun with
  | ok h hs => exact hf _ _ h _ _ hs
  | problem h => exact .problem h
  | faultLeft => exact .faultLeft
  | faultRight => exact .faultRight

theorem agree_map {R : α → α → Prop} {S : β → β → Prop} {x y : Parser α} {f g : α → β}
    (hx : Agree R x y) (hf : ∀ a b, R a b → S (f a) (g b)) : Agree S (f <$> x) (g <$> y) :=
  agree_bind hx fun a b h => agree_pure (hf a b h)

theorem agree_reject {R : α → α → Prop} (s t : Span) (problem : Problem) :
    Agree R (reject s problem) (reject t problem) :=
  fun _ _ _ => .problem rfl

theorem agree_reject_bind {S : β → β → Prop} (s t : Span) (problem : Problem)
    (f g : α → Parser β) : Agree S (reject s problem >>= f) (reject t problem >>= g) :=
  fun _ _ _ => .problem rfl

theorem agree_fail {R : α → α → Prop} (f : Fault) (y : Parser α) : Agree R (fail f) y :=
  fun _ _ _ => .faultLeft

theorem agree_get : Agree Alike get get :=
  fun _ _ hs => .ok hs hs

theorem agree_cover (a b c d : Span) : Agree (fun _ _ => True) (cover a b) (cover c d) := by
  intro m n hs
  unfold cover
  cases a.cover b with
  | error f => exact .faultLeft
  | ok s =>
    cases c.cover d with
    | error f => exact .faultRight
    | ok t => exact .ok trivial hs

/-! ## Single tokens -/

theorem agree_current : Agree SameFace current current :=
  fun _ _ hs => .ok (hs.stream.look 0) hs

theorem agree_next : Agree SameFace next next :=
  fun _ _ hs => .ok (hs.stream.look 1) hs

theorem agree_advance : Agree SameFace advance advance := by
  intro m n hs
  unfold advance pass Stream.advance
  rw [hs.stream.kind_current, hs.stream.size, hs.stream.cursor]
  by_cases hend : n.stream.current.kind = .endOfInput ∨ n.stream.tokens.size ≤ n.stream.cursor
  · rw [if_pos hend, if_pos hend]
    exact .problem rfl
  · rw [if_neg hend, if_neg hend]
    exact .ok (hs.stream.look 0) ⟨hs.stream.step, hs.declared⟩

theorem agree_expect (kind : Kind) : Agree SameFace (expect kind) (expect kind) := by
  intro m n hs
  have hadvance := agree_advance m n hs
  unfold advance pass at hadvance
  unfold expect pass Stream.expect
  dsimp only
  rw [hs.stream.kind_current]
  by_cases hne : n.stream.current.kind ≠ kind
  · rw [if_pos hne, if_pos hne]
    exact .problem rfl
  · rw [if_neg hne, if_neg hne]
    by_cases hend : kind = .endOfInput
    · rw [if_pos hend, if_pos hend]
      exact .ok (hs.stream.look 0) hs
    · rw [if_neg hend, if_neg hend]
      exact hadvance

theorem agree_take (kind : Kind) : Agree Eq (take kind) (take kind) := by
  intro m n hs
  unfold take Stream.take
  rw [hs.stream.kind_current]
  by_cases h : n.stream.current.kind = kind
  · rw [if_pos h, if_pos h]
    exact .ok rfl ⟨hs.stream.step, hs.declared⟩
  · rw [if_neg h, if_neg h]
    exact .ok rfl hs

theorem agree_ident : Agree (fun a b => a.bare = b.bare) ident ident := by
  refine agree_bind (agree_expect .name) ?_
  intro t u h
  apply agree_pure
  change Ident.mk t.text _ = Ident.mk u.text _
  rw [h.text]

/-! ## Expressions -/

/-- Expressions that differ at most in their places. -/
abbrev SameExpr (d e : Expr) : Prop :=
  d.bare = e.bare

theorem agree_literal (s t : Span) (value : Except Decimal.LiteralError α)
    {wrap : α → Span → Expr} (hwrap : ∀ a, SameExpr (wrap a s) (wrap a t)) :
    Agree SameExpr (literal s value wrap) (literal t value wrap) := by
  unfold literal
  cases value with
  | ok a => exact agree_pure (hwrap a)
  | error e => exact agree_reject s t _

theorem agree_operand {inner : Parser Expr} (hinner : Agree SameExpr inner inner) {t u : Token}
    (h : SameFace t u) : Agree SameExpr (operand inner t) (operand inner u) := by
  obtain ⟨kind, text, s⟩ := t
  obtain ⟨kind', text', s'⟩ := u
  obtain ⟨rfl, rfl⟩ := Prod.mk.inj h
  unfold operand
  cases kind with
  | name => exact agree_pure rfl
  | integerLiteral => exact agree_literal s s' _ fun _ => rfl
  | doubleLiteral => exact agree_literal s s' _ fun _ => rfl
  | stringLiteral => exact agree_literal s s' _ fun _ => rfl
  | leftParen =>
    refine agree_bind hinner ?_
    intro d e hde
    refine agree_bind (agree_expect .rightParen) ?_
    intro _ _ _
    refine agree_bind (agree_cover _ _ _ _) ?_
    intro _ _ _
    apply agree_pure
    rw [SameExpr, Expr.bare_withSpan, Expr.bare_withSpan, hde]
  | _ => exact agree_reject s s' _

theorem agree_joined {inner : Parser Expr} (hinner : Agree SameExpr inner inner) (op : Operator)
    {d e : Expr} (h : SameExpr d e) : Agree SameExpr (joined inner op d) (joined inner op e) := by
  have hident : d.isIdent = e.isIdent := by rw [← Expr.isIdent_bare, h, Expr.isIdent_bare]
  unfold joined
  dsimp only
  rw [hident]
  split
  · exact agree_reject_bind _ _ _ _ _
  · refine agree_bind hinner ?_
    intro d' e' hrhs
    refine agree_bind agree_current ?_
    intro t u hface
    rw [hface.kind]
    split
    · exact agree_reject_bind _ _ _ _ _
    · refine agree_bind (agree_cover _ _ _ _) ?_
      intro _ _ _
      apply agree_pure
      rw [SameExpr, Expr.bare, Expr.bare, h, hrhs]

/-- Both readers of expressions, by induction on their fuel. -/
theorem agree_expression_and_operators (fuel : Nat) :
    (∀ least, Agree SameExpr (expressionWithin fuel least) (expressionWithin fuel least)) ∧
      ∀ least d e, SameExpr d e →
        Agree SameExpr (operatorsWithin fuel least d) (operatorsWithin fuel least e) := by
  induction fuel with
  | zero =>
    constructor
    · intro least
      exact agree_fail _ _
    · intro least d e _
      exact agree_fail _ _
  | succ fuel ih =>
    obtain ⟨hexpr, hops⟩ := ih
    constructor
    · intro least
      rw [expressionWithin]
      refine agree_bind agree_advance ?_
      intro t u h
      refine agree_bind (agree_operand (hexpr 0) h) ?_
      intro d e hde
      exact hops least d e hde
    · intro least d e hde
      rw [operatorsWithin_succ, operatorsWithin_succ]
      refine agree_bind agree_current ?_
      intro t u h
      rw [h.kind]
      cases u.kind with
      | operator op =>
        dsimp only
        split
        · exact agree_pure hde
        · refine agree_bind agree_advance ?_
          intro _ _ _
          refine agree_bind (agree_joined (hexpr op.rightPower) op hde) ?_
          intro d' e' hde'
          exact hops least d' e' hde'
      | _ => exact agree_pure hde

theorem agree_expression : Agree SameExpr expression expression := by
  refine agree_bind agree_get ?_
  intro m n hs
  rw [hs.stream.remaining]
  exact (agree_expression_and_operators _).1 0

end Parsing

end Bukvar
