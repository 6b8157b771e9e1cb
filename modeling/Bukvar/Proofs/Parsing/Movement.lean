import Bukvar.Proofs.Parsing.ProgramStep

/-!
# How a parser moves over its tokens

A parser changes nothing about its stream but the cursor, which goes forward over tokens that do
not mark the end (`Moves`). It goes beyond the last token only by passing that token, and then it
is known which kind of token that was (`EndedBy`): `take` would otherwise go on without an end.

`Safe` is the rule for runs of parsers, failures included: the cursor has moved in this way, a
problem has a span with the property `G`, and no fault occurs. `G` is anything that the spans of the
tokens have and that the least span which holds two others inherits (`Spanned`).

* `safe_bind`: one parser after another.
* `safe_advance`, `safe_expect`, `safe_take`: the parsers of single tokens.
-/

namespace Bukvar

open Token (Kind Stream)

namespace Token.Stream

variable {s t u : Stream}

/-! ## Moves of the cursor -/

/-- The stream `t` is the stream `s` some tokens further, none of which marks the end. -/
structure Moves (s t : Stream) : Prop where
  tokens : t.tokens = s.tokens
  le : s.cursor ≤ t.cursor
  inside : s.cursor < t.cursor → t.cursor ≤ s.tokens.size
  passed : ∀ i, s.cursor ≤ i → i < t.cursor → ∀ token, s.tokens[i]? = some token →
    token.kind ≠ .endOfInput

theorem Moves.refl (s : Stream) : Moves s s := by
  refine ⟨rfl, Nat.le_refl _, ?_, ?_⟩
  · intro h
    omega
  · intro i h h'
    omega

theorem Moves.trans (h : Moves s t) (h' : Moves t u) : Moves s u := by
  have htu := h'.inside
  rw [h.tokens] at htu
  refine ⟨h'.tokens.trans h.tokens, Nat.le_trans h.le h'.le, ?_, ?_⟩
  · intro hlt
    by_cases hmoved : t.cursor < u.cursor
    · exact htu hmoved
    · have := h.inside (by omega)
      omega
  · intro i hs hu token htoken
    by_cases hi : i < t.cursor
    · exact h.passed i hs hi token htoken
    · exact h'.passed i (by omega) hu token (h.tokens ▸ htoken)

theorem Moves.remaining_le (h : Moves s t) : t.remaining ≤ s.remaining := by
  have := h.le
  rw [remaining, remaining, h.tokens]
  omega

theorem current_eq_last (h : s.tokens.size ≤ s.cursor) : s.current = s.last := by
  rw [current, look, Array.getElem?_eq_none (by omega)]
  rfl

theorem getElem?_current (h : s.cursor < s.tokens.size) :
    s.tokens[s.cursor]? = some s.current := by
  rw [current, look, Nat.add_zero, Array.getElem?_eq_getElem h]
  rfl

theorem getElem?_last (s : Stream) : s.tokens[s.tokens.size - 1]? = some s.last := by
  rw [last, Array.back_eq_getElem]
  exact Array.getElem?_eq_getElem _

theorem look_mem (s : Stream) (n : Nat) : s.look n ∈ s.tokens := by
  unfold look
  cases h : s.tokens[s.cursor + n]? with
  | none => exact Array.back_mem s.nonempty
  | some token => exact Array.mem_of_getElem? h

theorem moves_step (hkind : s.current.kind ≠ .endOfInput) (hlt : s.cursor < s.tokens.size) :
    Moves s s.step := by
  refine ⟨rfl, Nat.le_succ _, fun _ => hlt, ?_⟩
  intro i hi hi' token htoken
  obtain rfl : i = s.cursor := Nat.le_antisymm (Nat.le_of_lt_succ hi') hi
  rw [getElem?_current hlt, Option.some.injEq] at htoken
  rwa [← htoken]

theorem remaining_step (hlt : s.cursor < s.tokens.size) : s.step.remaining < s.remaining := by
  change s.tokens.size - (s.cursor + 1) < s.tokens.size - s.cursor
  omega

/-- If all tokens have been passed, the last of them has a kind with the property. -/
def EndedBy (s : Stream) (p : Kind → Prop) : Prop :=
  s.tokens.size ≤ s.cursor → p s.last.kind

theorem EndedBy.mono {p q : Kind → Prop} (h : s.EndedBy p) (hpq : ∀ kind, p kind → q kind) :
    s.EndedBy q :=
  fun hend => hpq _ (h hend)

theorem endedBy_step (hlt : s.cursor < s.tokens.size) :
    s.step.EndedBy (· = s.current.kind) := by
  intro hend
  change s.tokens.size ≤ s.cursor + 1 at hend
  have hlast := s.getElem?_last
  rw [show s.tokens.size - 1 = s.cursor by omega, getElem?_current hlt, Option.some.injEq] at hlast
  rw [hlast]
  rfl

/-- The cursor is not beyond the end where a token is seen that cannot have ended the stream. -/
theorem EndedBy.cursor_lt {kind : Kind} (h : s.EndedBy (· ≠ kind)) (hkind : s.current.kind = kind) :
    s.cursor < s.tokens.size := by
  apply Nat.lt_of_not_le
  intro hend
  exact h hend (current_eq_last hend ▸ hkind)

/-! ## Spans of tokens -/

/-- The spans of the tokens have the property, and so does the least span that holds two spans
with it. -/
structure Spanned (s : Stream) (G : Span → Prop) : Prop where
  token : ∀ t ∈ s.tokens, G t.span
  cover : ∀ a b, G a → G b → ∃ c, a.cover b = .ok c ∧ G c

theorem Spanned.look {G : Span → Prop} (h : s.Spanned G) (n : Nat) : G (s.look n).span :=
  h.token _ (s.look_mem n)

theorem Spanned.of_moves {G : Span → Prop} (h : s.Spanned G) (hm : Moves s t) : t.Spanned G :=
  ⟨fun token htoken => h.token token (hm.tokens ▸ htoken), h.cover⟩

end Token.Stream

namespace Parsing

open Token.Stream (Moves)
open Diagnostic (Problem)

variable {α β : Type} {G : Span → Prop} {m : State}

/-! ## Runs without faults -/

/-- A run from the stream has moved the cursor, to a result with the given property or to a problem
whose span has the property `G`. -/
def Keeps (G : Span → Prop) (s : Stream) (Q : α → State → Prop) :
    EStateM.Result Failure State α → Prop
  | .ok a n => s.Moves n.stream ∧ Q a n
  | .error (.problem p) n => s.Moves n.stream ∧ G p.span
  | .error (.fault _) _ => False

/-- The parser runs without a fault from the state, and a result has the property `Q`. -/
def Safe (G : Span → Prop) (x : Parser α) (m : State) (Q : α → State → Prop) : Prop :=
  m.stream.Spanned G → Keeps G m.stream Q (x m)

theorem Keeps.of_moves {s t : Stream} {Q : α → State → Prop}
    {r : EStateM.Result Failure State α} (hm : s.Moves t) (h : Keeps G t Q r) : Keeps G s Q r := by
  cases r with
  | ok a n => exact ⟨hm.trans h.1, h.2⟩
  | error e n =>
    cases e with
    | problem p => exact ⟨hm.trans h.1, h.2⟩
    | fault f => exact h

theorem safe_pure {Q : α → State → Prop} {a : α} (h : Q a m) : Safe G (pure a) m Q :=
  fun _ => ⟨.refl _, h⟩

theorem safe_bind {x : Parser α} {f : α → Parser β} {Q : α → State → Prop} {R : β → State → Prop}
    (hx : Safe G x m Q) (hf : ∀ a n, m.stream.Moves n.stream → Q a n → Safe G (f a) n R) :
    Safe G (x >>= f) m R := by
  intro hspans
  have hx := hx hspans
  change Keeps G m.stream R (EStateM.bind x f m)
  unfold EStateM.bind
  cases hrun : x m with
  | ok a n =>
    rw [hrun] at hx
    exact (hf a n hx.1 hx.2 (hspans.of_moves hx.1)).of_moves hx.1
  | error e n =>
    rw [hrun] at hx
    cases e <;> exact hx

theorem Safe.mono {x : Parser α} {Q R : α → State → Prop} (hx : Safe G x m Q)
    (h : ∀ a n, m.stream.Moves n.stream → Q a n → R a n) : Safe G x m R := by
  intro hspans
  have hx := hx hspans
  cases hrun : x m with
  | ok a n =>
    rw [hrun] at hx
    exact ⟨hx.1, h a n hx.1 hx.2⟩
  | error e n =>
    rw [hrun] at hx
    cases e <;> exact hx

theorem safe_map {x : Parser α} {f : α → β} {Q : α → State → Prop} {R : β → State → Prop}
    (hx : Safe G x m Q) (h : ∀ a n, m.stream.Moves n.stream → Q a n → R (f a) n) :
    Safe G (f <$> x) m R :=
  safe_bind hx fun a n hm hq => safe_pure (h a n hm hq)

/-- A step that looks at the state and does not change it. -/
theorem safe_of_ok {x : Parser α} {f : α → Parser β} {a : α} {R : β → State → Prop}
    (hx : x m = .ok a m) (h : Safe G (f a) m R) : Safe G (x >>= f) m R := by
  intro hspans
  rw [bind_of_ok hx]
  exact h hspans

theorem safe_reject {Q : α → State → Prop} {span : Span} {problem : Problem}
    (h : m.stream.Spanned G → G span) : Safe G (reject span problem) m Q :=
  fun hspans => ⟨.refl _, h hspans⟩

theorem safe_reject_bind {f : α → Parser β} {Q : β → State → Prop} {span : Span}
    {problem : Problem} (h : m.stream.Spanned G → G span) :
    Safe G (reject span problem >>= f) m Q :=
  fun hspans => ⟨.refl _, h hspans⟩

theorem safe_cover {a b : Span} (ha : G a) (hb : G b) :
    Safe G (cover a b) m fun c n => G c ∧ n = m := by
  intro hspans
  obtain ⟨c, hc, hG⟩ := hspans.cover a b ha hb
  unfold cover
  rw [hc]
  exact ⟨.refl _, hG, rfl⟩

/-! ## Parsers of single tokens -/

/-- A token has been passed: it was the one ahead, and it is behind the cursor now. -/
structure Passed (G : Span → Prop) (m : State) (t : Token) (n : State) : Prop where
  token : t = m.stream.current
  span : G t.span
  less : n.stream.remaining < m.stream.remaining
  ended : n.stream.EndedBy (· = t.kind)

theorem safe_advance : Safe G advance m (Passed G m) := by
  intro hspans
  unfold advance pass Stream.advance
  by_cases h : m.stream.current.kind = .endOfInput ∨ m.stream.tokens.size ≤ m.stream.cursor
  · rw [if_pos h]
    exact ⟨.refl _, hspans.look 0⟩
  · rw [if_neg h]
    rw [not_or, Nat.not_le] at h
    exact ⟨Stream.moves_step h.1 h.2, rfl, hspans.look 0, Stream.remaining_step h.2,
      Stream.endedBy_step h.2⟩

theorem next_eq (m : State) : next m = .ok m.stream.next m := rfl

theorem expect_of_kind {kind : Kind} (h : m.stream.current.kind = kind)
    (hkind : kind ≠ .endOfInput) : expect kind m = advance m := by
  simp only [expect, advance, pass, Stream.expect, h, ne_eq, not_true_eq_false, if_false, hkind]

theorem expect_of_ne {kind : Kind} (h : m.stream.current.kind ≠ kind) :
    expect kind m = reject m.stream.current.span
      (.unexpected m.stream.current.kind kind) m := by
  simp only [expect, pass, Stream.expect, h, ne_eq, not_false_eq_true, if_true]
  rfl

theorem expect_end_of_kind (h : m.stream.current.kind = .endOfInput) :
    expect .endOfInput m = .ok m.stream.current m := by
  simp only [expect, pass, Stream.expect, h, ne_eq, not_true_eq_false, if_false, if_true]

theorem safe_expect {kind : Kind} (hkind : kind ≠ .endOfInput) :
    Safe G (expect kind) m fun t n => t.kind = kind ∧ Passed G m t n := by
  intro hspans
  by_cases h : m.stream.current.kind = kind
  · rw [expect_of_kind h hkind]
    refine safe_advance.mono ?_ hspans
    intro t n _ hpassed
    exact ⟨hpassed.token ▸ h, hpassed⟩
  · rw [expect_of_ne h]
    exact ⟨.refl _, hspans.look 0⟩

theorem safe_expect_end :
    Safe G (expect .endOfInput) m fun _ n => n = m ∧ m.stream.current.kind = .endOfInput := by
  intro hspans
  by_cases h : m.stream.current.kind = .endOfInput
  · rw [expect_end_of_kind h]
    exact ⟨.refl _, rfl, h⟩
  · rw [expect_of_ne h]
    exact ⟨.refl _, hspans.look 0⟩

/-- A token is taken where the last one, should it have been passed, is of another kind. -/
theorem safe_take {kind : Kind} (hkind : kind ≠ .endOfInput)
    (hended : m.stream.EndedBy (· ≠ kind)) :
    Safe G (take kind) m fun b n =>
      b = true ∧ n.stream.remaining < m.stream.remaining ∧ n.stream.EndedBy (· = kind) ∨
        b = false ∧ n = m ∧ m.stream.current.kind ≠ kind := by
  intro _
  unfold take Stream.take
  by_cases h : m.stream.current.kind = kind
  · have hlt := hended.cursor_lt h
    rw [if_pos h]
    refine ⟨Stream.moves_step (h ▸ hkind) hlt, .inl ⟨rfl, Stream.remaining_step hlt, ?_⟩⟩
    exact h ▸ Stream.endedBy_step hlt
  · rw [if_neg h]
    exact ⟨.refl _, .inr ⟨rfl, rfl, h⟩⟩

theorem safe_ident :
    Safe G ident m fun id n => G id.span ∧ n.stream.remaining < m.stream.remaining ∧
      n.stream.EndedBy (· = .name) := by
  refine safe_bind (safe_expect nofun) ?_
  rintro t n - ⟨hname, hpassed⟩
  exact safe_pure ⟨hpassed.span, hpassed.less, hname ▸ hpassed.ended⟩

end Parsing

end Bukvar
