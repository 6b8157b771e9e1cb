import Bukvar.Proofs.Diagnostic.Blame
import Bukvar.Proofs.Parsing.ProgramParallel

/-!
# Parsing comes to an end

On every stream with tokens the parser answers, also where the tokens are in no order, where the
mark at the end is missing or stands in the middle, and where the cursor is beyond the end from the
start on. Only the spans have to be near enough to each other to be covered.

The answer does not come from the fuel: readers with different fuels that both come to an end have
come to the same one (`Parallel.eq_of_fueled`). What `Safe` says of readers with much fuel therefore
holds of successful readers with any.

* `progresses_statement`, `progresses_expression`: one statement and one expression.
* `parsing_terminates`: all streams with tokens.
-/

namespace Bukvar

open Token (Buffer Kind Stream)

namespace Parsing

variable {α : Type} {G : Span → Prop} {m n : State}

/-! ## More fuel, the same answer -/

/-- Nothing is known of the tokens. -/
def Scope.any : Scope where
  token _ := True
  problem _ := True
  syntactic _ := trivial
  literal _ _ := trivial

/-- The run did not end for want of fuel. -/
def Fueled : EStateM.Result Failure State α → Prop
  | .error (.fault .outOfFuel) _ => False
  | _ => True

theorem Keeps.fueled {s : Stream} {Q : α → State → Prop} {r : EStateM.Result Failure State α}
    (h : Keeps G s Q r) : Fueled r := by
  cases r with
  | ok a n => trivial
  | error e n =>
    cases e with
    | problem p => trivial
    | fault f => exact h.elim

theorem Shared.eq {k : Nat} (h : Shared k m n) (hsize : m.stream.tokens.size ≤ k) : m = n := by
  have htokens := h.tokens_eq hsize
  have hcursor := h.cursor
  have hdeclared := h.declared
  obtain ⟨⟨tokens, cursor, _⟩, declared⟩ := m
  obtain ⟨⟨tokens', cursor', _⟩, declared'⟩ := n
  cases htokens
  cases hcursor
  cases hdeclared
  rfl

theorem SameRun.eq {k : Nat} {r r' : EStateM.Result Failure State α} (h : SameRun k r r')
    (hr : Fueled r) (hr' : Fueled r') (hsize : (endOf r).stream.tokens.size ≤ k) : r = r' := by
  cases h with
  | ok h => rw [h.eq hsize]
  | error h => rw [h.eq hsize]
  | noFuelLeft => exact hr.elim
  | noFuelRight => exact hr'.elim

/-- Parallel readers that have fuel enough do the same. -/
theorem Parallel.eq_of_fueled {x y : Parser α} {Q : α → Prop} (h : Parallel .any x y Q)
    (hx : Fueled (x m)) (hy : Fueled (y m)) : x m = y m := by
  -- A place that neither the cursor nor any token has.
  obtain ⟨k, hsize, hcursor⟩ : ∃ k, (endOf (x m)).stream.tokens.size ≤ k ∧
      (endOf (x m)).stream.cursor < k :=
    ⟨_, Nat.le_max_left _ _, Nat.le_max_right _ _⟩
  exact (h.sameRun (fun _ _ => trivial) (.refl k m) hcursor).eq hx hy hsize

/-! ## Statements and expressions -/

/-- A reader that is given its fuel answers the same for every fuel that is enough, and where it
succeeds, with whatever fuel, it has passed a token. -/
structure Progresses (reader : Nat → Parser α) (m : State) : Prop where
  settles : ∃ enough r, (∀ f n, r ≠ .error (.fault f) n) ∧ ∀ fuel ≥ enough, reader fuel m = r
  forward : ∀ fuel a n, reader fuel m = .ok a n → m.stream.cursor < n.stream.cursor

/-- Readers that are parallel for any two fuels, and that pass a token if they have enough. -/
theorem progresses_of_safe {reader : Nat → Parser α} {Q : α → State → Prop}
    (enough : Nat) (hspans : m.stream.Spanned G)
    (hparallel : ∀ i j, InStep .any (reader i) (reader j))
    (hsafe : ∀ fuel ≥ enough, Safe G (reader fuel) m Q)
    (hless : ∀ a n, Q a n → n.stream.remaining < m.stream.remaining) : Progresses reader m := by
  have hkeeps := hsafe enough (Nat.le_refl _) hspans
  have hrun {fuel : Nat} (h : Fueled (reader fuel m)) : reader fuel m = reader enough m :=
    (hparallel fuel enough).eq_of_fueled h hkeeps.fueled
  constructor
  · refine ⟨enough, reader enough m, ?_, ?_⟩
    · intro f n hfault
      rw [hfault] at hkeeps
      exact hkeeps
    · intro fuel hfuel
      exact hrun (hsafe fuel hfuel hspans).fueled
  · -- A success with little fuel is the success with enough of it.
    intro fuel a n hok
    rw [← hrun (by rw [hok]; trivial), hok] at hkeeps
    have hremaining := hless a n hkeeps.2
    rw [Stream.remaining, Stream.remaining, hkeeps.1.tokens] at hremaining
    omega

theorem progresses_statement (hspans : m.stream.Spanned G) : Progresses statementWithin m := by
  refine progresses_of_safe (Q := fun _ n => BehindStatement m n) (2 * m.stream.remaining + 1)
    hspans (fun i j => (parallel_statements i j).statement) ?_ fun _ _ h => h.less
  intro fuel hfuel
  exact (safe_readers fuel).1 m hfuel

theorem progresses_expression (hspans : m.stream.Spanned G) (least : Nat) :
    Progresses (expressionWithin · least) m := by
  refine progresses_of_safe
    (Q := fun e n => BehindExpression G e n ∧ n.stream.remaining < m.stream.remaining)
    (m.stream.remaining + 1) hspans
    (fun i j => (parallel_expressions i j).expression least) ?_ fun _ _ h => h.2
  intro fuel hfuel
  exact (safe_expression_and_operators fuel).1 least m hfuel

/-! ## Whole buffers -/

/-- The run over a buffer has a result or a problem. It left the tokens as they were, and moved the
cursor forward if at all, not beyond their end. -/
structure Answers (buffer : Buffer) (run : Run α) : Prop where
  answer : ∀ fault, run.outcome ≠ .error (.fault fault)
  tokens : run.buffer.tokens = buffer.tokens
  le : buffer.cursor ≤ run.buffer.cursor
  inside : run.buffer.cursor ≤ max buffer.cursor buffer.tokens.size

theorem spanned_of_near {s : Stream} (h : ∀ t ∈ s.tokens, t.span.hi < Span.limit) :
    s.Spanned (·.hi < Span.limit) := by
  refine ⟨h, ?_⟩
  intro a b ha hb
  obtain ⟨c, hc⟩ := Span.exists_cover ha hb
  have hhi := (Span.cover_eq_ok_iff.mp hc).2
  exact ⟨c, hc, by omega⟩

theorem answers_of_safe {parser : Parser α} {buffer : Buffer} {Q : α → State → Prop}
    (hpos : 0 < buffer.tokens.size) (hnear : ∀ t ∈ buffer.tokens, t.span.hi < Span.limit)
    (hsafe : ∀ m, Safe (·.hi < Span.limit) parser m Q) :
    Answers buffer (parse parser buffer) := by
  obtain ⟨s, hs, htokens, hcursor⟩ := Buffer.exists_stream hpos
  have hspans : s.Spanned (·.hi < Span.limit) := spanned_of_near (htokens ▸ hnear)
  have hmoves {n : State} (h : s.Moves n.stream) :
      n.stream.buffer.tokens = buffer.tokens ∧ buffer.cursor ≤ n.stream.buffer.cursor ∧
        n.stream.buffer.cursor ≤ max buffer.cursor buffer.tokens.size := by
    have hle := h.le
    have hinside := h.inside
    rw [htokens, hcursor] at hinside
    rw [hcursor] at hle
    refine ⟨h.tokens.trans htokens, hle, ?_⟩
    change n.stream.cursor ≤ _
    omega
  obtain ⟨a, n, hrun, hmoved, -⟩ | ⟨p, n, hrun, hmoved, -⟩ := parse_cases hs hspans (hsafe _)
  · rw [hrun]
    obtain ⟨ht, hle, hinside⟩ := hmoves hmoved
    exact ⟨nofun, ht, hle, hinside⟩
  · rw [hrun]
    obtain ⟨ht, hle, hinside⟩ := hmoves hmoved
    exact ⟨nofun, ht, hle, hinside⟩

/-- On every buffer with tokens, in whatever order they are and wherever the cursor stands, both
parsers answer. Statements and expressions that are read have taken at least one token. -/
theorem parsing_terminates (buffer : Buffer) (hpos : 0 < buffer.tokens.size)
    (hnear : ∀ t ∈ buffer.tokens, t.span.hi < Span.limit) :
    Answers buffer (parseProgram buffer) ∧ Answers buffer (parseExpression buffer) ∧
      ∀ m : State, m.stream.tokens = buffer.tokens →
        Progresses statementWithin m ∧ ∀ least, Progresses (expressionWithin · least) m := by
  refine ⟨answers_of_safe hpos hnear fun _ => safe_program,
    answers_of_safe hpos hnear fun _ => safe_expressionOnly, ?_⟩
  intro m htokens
  have hspans : m.stream.Spanned (·.hi < Span.limit) := spanned_of_near (htokens ▸ hnear)
  exact ⟨progresses_statement hspans, progresses_expression hspans⟩

/-- Two loops of which only the inner one is closed, without a mark at the end. Behind the inner
loop its closing word is seen again. -/
def unclosedLoop : Buffer where
  tokens := #[⟨.programBegin, "начало", .empty 0⟩, ⟨.loopBegin, "нц", .empty 1⟩,
    ⟨.integerLiteral, "2", .empty 2⟩, ⟨.times, "раз", .empty 3⟩, ⟨.loopBegin, "нц", .empty 4⟩,
    ⟨.integerLiteral, "3", .empty 5⟩, ⟨.times, "раз", .empty 6⟩, ⟨.loopEnd, "кц", .empty 7⟩]
  cursor := 0

theorem parsing_terminates_unclosedLoop :
    Answers unclosedLoop (parseProgram unclosedLoop) ∧
      (parseProgram unclosedLoop).outcome = .error (.problem ⟨.empty 7, .outOfTokens⟩) ∧
      (parseProgram unclosedLoop).buffer.cursor = 8 ∧
      Answers ⟨unclosedLoop.tokens, 20⟩ (parseExpression ⟨unclosedLoop.tokens, 20⟩) ∧
      (parseExpression ⟨unclosedLoop.tokens, 20⟩).buffer.cursor = 20 := by
  have hnear : ∀ t ∈ unclosedLoop.tokens, t.span.hi < Span.limit := by decide
  refine ⟨(parsing_terminates unclosedLoop (by decide) hnear).1, rfl, rfl, ?_, rfl⟩
  exact (parsing_terminates ⟨unclosedLoop.tokens, 20⟩ (by decide) hnear).2.1

end Parsing

end Bukvar
