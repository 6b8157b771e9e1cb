import Bukvar.Diagnostic.Problem
import Bukvar.Program.Basic

/-!
# Parsers

A parser reads a token stream and may stop at the first problem. The state survives a
failure, so the place where a parser stopped can be seen afterwards. Besides the stream the
state holds the variables declared so far, with no regard to blocks.

* `bind_eq_ok_iff`: one parser after another succeeds when both do.
* `advance_eq_ok_iff`, `expect_eq_ok_iff`: exactly when a token is passed.
-/

namespace Bukvar.Parsing

open Token (Kind Stream)
open Diagnostic (Problem)

/-- Why a parser stopped. -/
inductive Failure where
  | problem (located : Located Problem)
  | fault (fault : Fault)
deriving DecidableEq

/-- What a parser has read and knows. -/
structure State where
  stream : Stream
  /-- The declared variables, the latest first. -/
  declared : List (String × VarType)

/-- A reader of tokens that keeps its place when it fails. -/
abbrev Parser := EStateM Failure State

/-- Stops for a problem. -/
def reject {α : Type} (span : Span) (problem : Problem) : Parser α :=
  throw (.problem ⟨span, problem⟩)

/-- Stops for a broken precondition. -/
def fail {α : Type} (fault : Fault) : Parser α :=
  throw (.fault fault)

/-- The token to be passed next. -/
def current : Parser Token :=
  return (← get).stream.current

/-- The token behind the current one. -/
def next : Parser Token :=
  return (← get).stream.next

/-- Passes a token as a step of the stream does, and turns a refusal into a problem. -/
def pass (step : Stream → Except Token.Refusal (Token × Stream)) : Parser Token := fun state =>
  match step state.stream with
  | .ok (token, stream) => .ok token { state with stream }
  | .error refusal => .error (.problem (Problem.ofRefusal refusal)) state

/-- Passes the current token. -/
def advance : Parser Token :=
  pass Stream.advance

/-- Passes the current token, which has to be of the given kind. -/
def expect (kind : Kind) : Parser Token :=
  pass (·.expect kind)

/-- Passes the current token if it is of the given kind, and tells whether it was. -/
def take (kind : Kind) : Parser Bool := fun state =>
  .ok (state.stream.take kind).1 { state with stream := (state.stream.take kind).2 }

/-- The span that covers two others. -/
def cover (a b : Span) : Parser Span := fun state =>
  match a.cover b with
  | .ok span => .ok span state
  | .error fault => .error (.fault fault) state

/-- What a token stands for, by a conversion of its kind. That the kind has no counterpart is a
mistake of the parser, not of the source. -/
def converted {α : Type} (convert : Kind → Except Token.Conversion α) (token : Token) : Parser α :=
  match convert token.kind with
  | .ok a => return a
  | .error failed => reject token.span (.conversion failed)

/-- The type that the latest declaration gave to a name. -/
def typeOf? (name : String) : Parser (Option VarType) :=
  return (← get).declared.lookup name

/-- Records a declaration. -/
def declare (name : String) (type : VarType) : Parser Unit :=
  modify fun state => { state with declared := (name, type) :: state.declared }

/-- Passes a name. -/
def ident : Parser Ident := do
  let token ← expect .name
  return ⟨token.text, token.span⟩

theorem bind_eq_ok_iff {α β : Type} {x : Parser α} {f : α → Parser β} {b : β} {s t : State} :
    (x >>= f) s = .ok b t ↔ ∃ a r, x s = .ok a r ∧ f a r = .ok b t := by
  change EStateM.bind x f s = _ ↔ _
  unfold EStateM.bind
  cases h : x s with
  | ok a r =>
    constructor
    · intro hf
      exact ⟨a, r, rfl, hf⟩
    · rintro ⟨_, _, hx, hf⟩
      cases hx
      exact hf
  | error e r =>
    constructor
    · intro hf
      cases hf
    · rintro ⟨_, _, hx, _⟩
      cases hx

theorem pass_eq_ok_iff {step : Stream → Except Token.Refusal (Token × Stream)} {token : Token}
    {s t : State} :
    pass step s = .ok token t ↔
      step s.stream = .ok (token, t.stream) ∧ t.declared = s.declared := by
  unfold pass
  cases h : step s.stream with
  | ok pair =>
    obtain ⟨passed, stream⟩ := pair
    obtain ⟨after, declared⟩ := t
    simp [eq_comm, and_assoc]
  | error refusal =>
    constructor
    · intro he
      cases he
    · rintro ⟨he, _⟩
      cases he

theorem advance_eq_ok_iff {token : Token} {s t : State} :
    advance s = .ok token t ↔
      (s.stream.current.kind ≠ .endOfInput ∧ s.stream.cursor < s.stream.tokens.size) ∧
        token = s.stream.current ∧ t = { s with stream := s.stream.step } := by
  obtain ⟨stream, declared⟩ := t
  rw [advance, pass_eq_ok_iff, Stream.advance_eq_ok_iff, State.mk.injEq]
  simp only [and_assoc]

theorem expect_eq_ok_iff {kind : Kind} (hkind : kind ≠ .endOfInput) {token : Token} {s t : State} :
    expect kind s = .ok token t ↔
      (s.stream.current.kind = kind ∧ s.stream.cursor < s.stream.tokens.size) ∧
        token = s.stream.current ∧ t = { s with stream := s.stream.step } := by
  obtain ⟨stream, declared⟩ := t
  rw [expect, pass_eq_ok_iff, Stream.expect_eq_ok_iff hkind, State.mk.injEq]
  simp only [and_assoc]

end Bukvar.Parsing
