import Bukvar.Token.Buffer

/-!
# Reading tokens

A stream is a buffer with at least one token. Looking beyond its end shows the last token
again, which for a source is the mark at its end. `advance` and `expect` pass a token or
refuse and stay; `take` passes a token of a given kind, the mark at the end included.

* `advance_eq_ok_iff`, `expect_eq_ok_iff`: exactly when a token is passed, and that nothing
  but the cursor changes.
-/

namespace Bukvar.Token

/-- A buffer that can be read. -/
structure Stream where
  tokens : Array Token
  cursor : Nat
  nonempty : 0 < tokens.size

/-- Why a stream did not pass a token. -/
inductive Refusal where
  /-- There is nothing more to pass. -/
  | outOfTokens (span : Span)
  /-- The next token has another kind. -/
  | mismatch (expected found : Kind) (span : Span)
deriving DecidableEq

/-- A refusal as text. -/
def Refusal.message : Refusal → String
  | outOfTokens span => span.text ++ ": unexpected end of input"
  | mismatch expected found span =>
    span.text ++ ": expected token " ++ expected.label ++ ", but got " ++ found.label

/-- The buffer as a stream, unless it has no tokens. -/
def Buffer.stream? (b : Buffer) : Option Stream :=
  if h : 0 < b.tokens.size then some ⟨b.tokens, b.cursor, h⟩ else none

namespace Stream

/-- The buffer behind a stream. -/
def buffer (s : Stream) : Buffer :=
  ⟨s.tokens, s.cursor⟩

/-- The last token. -/
def last (s : Stream) : Token :=
  s.tokens.back s.nonempty

/-- The token some places ahead, the last one beyond the end. -/
def look (s : Stream) (ahead : Nat) : Token :=
  s.tokens[s.cursor + ahead]?.getD s.last

/-- The token to be passed next. -/
def current (s : Stream) : Token :=
  s.look 0

/-- The token behind the current one. -/
def next (s : Stream) : Token :=
  s.look 1

/-- Number of tokens still to be passed. -/
def remaining (s : Stream) : Nat :=
  s.tokens.size - s.cursor

/-- The stream with the cursor one place further. -/
def step (s : Stream) : Stream :=
  { s with cursor := s.cursor + 1 }

/-- Passes the current token, unless it marks the end or the end is behind. -/
def advance (s : Stream) : Except Refusal (Token × Stream) :=
  if s.current.kind = .endOfInput ∨ s.tokens.size ≤ s.cursor then
    .error (.outOfTokens s.current.span)
  else .ok (s.current, s.step)

/-- Passes the current token if it is of the given kind, and tells whether it was. -/
def take (s : Stream) (kind : Kind) : Bool × Stream :=
  if s.current.kind = kind then (true, s.step) else (false, s)

/-- Passes the current token, which has to be of the given kind. The mark at the end is
accepted and not passed. -/
def expect (s : Stream) (kind : Kind) : Except Refusal (Token × Stream) :=
  if s.current.kind ≠ kind then .error (.mismatch kind s.current.kind s.current.span)
  else if kind = .endOfInput then .ok (s.current, s)
  else s.advance

theorem advance_eq_ok_iff {s s' : Stream} {t : Token} :
    s.advance = .ok (t, s') ↔
      (s.current.kind ≠ .endOfInput ∧ s.cursor < s.tokens.size) ∧ t = s.current ∧ s' = s.step := by
  unfold advance
  split
  next h =>
    constructor
    · intro hok
      cases hok
    · rintro ⟨⟨hkind, hlt⟩, _⟩
      rcases h with h | h
      · exact absurd h hkind
      · omega
  next h =>
    rw [not_or, Nat.not_le] at h
    rw [Except.ok.injEq, Prod.mk.injEq]
    exact ⟨fun he => ⟨h, he.1.symm, he.2.symm⟩, fun he => ⟨he.2.1.symm, he.2.2.symm⟩⟩

theorem expect_eq_ok_iff {s s' : Stream} {t : Token} {kind : Kind} (hkind : kind ≠ .endOfInput) :
    s.expect kind = .ok (t, s') ↔
      (s.current.kind = kind ∧ s.cursor < s.tokens.size) ∧ t = s.current ∧ s' = s.step := by
  unfold expect
  by_cases h : s.current.kind = kind
  · rw [if_neg (not_not_intro h), if_neg hkind, advance_eq_ok_iff]
    simp [h, hkind]
  · rw [if_pos h]
    constructor
    · intro hok
      cases hok
    · intro he
      exact absurd he.1.1 h

end Stream

end Bukvar.Token
