import Bukvar.Proofs.Diagnostic.Blame

/-!
# Compilers that are used again

A compiler keeps the tokens of its last run, with the cursor where the parser stopped. None of this
reaches the next run: a request is served as a new compiler with the same options would serve it
(`serve_eq_fresh`), and so is each request of a sequence (`replies_eq_map`). Only the journal tells
them apart, since it notes how many tokens were dropped.

A run leaves the tokens of its source. The cursor never passes the mark behind them, and stands on
it where the run succeeded (`settled_parse`).
-/

namespace Bukvar

open Token (Buffer Kind Stream)

/-! ## Requests and replies -/

/-- What can be asked of a compiler. -/
inductive Request where
  | compile (source : String)
  | parse (source : String)
  | reset
deriving DecidableEq

/-- The source that a request is about. -/
def Request.source? : Request → Option String
  | compile source => some source
  | parse source => some source
  | reset => none

/-- Whether there is a result. -/
def Outcome.succeeded {α : Type} : Outcome α → Bool
  | done _ => true
  | rejected _ => false
  | fault _ => false

theorem Outcome.succeeded_map {α β : Type} (f : α → β) (outcome : Outcome α) :
    (outcome.map f).succeeded = outcome.succeeded := by
  cases outcome <;> rfl

/-- What a request is answered. -/
inductive Answer where
  | listing (outcome : Outcome String)
  | tree (outcome : Outcome Program)
  | cleared

/-- Whether the request succeeded. -/
def Answer.succeeded : Answer → Bool
  | listing outcome => outcome.succeeded
  | tree outcome => outcome.succeeded
  | cleared => true

/-- An answer, and the compiler behind it. -/
structure Reply where
  answer : Answer
  compiler : Compiler

namespace Compiler

/-- Serves one request. -/
def serve (c : Compiler) : Request → Reply
  | .compile source => ⟨.listing (c.compile source).outcome, (c.compile source).compiler⟩
  | .parse source => ⟨.tree (c.parse source).outcome, (c.parse source).compiler⟩
  | .reset => ⟨.cleared, c.reset.compiler⟩

/-- Serves the requests one after the other, each with the compiler that the one before left. -/
def replies (c : Compiler) : List Request → List Reply
  | [] => []
  | r :: rs => c.serve r :: (c.serve r).compiler.replies rs

theorem options_parse (c : Compiler) (source : String) :
    (c.parse source).compiler.options = c.options := by
  unfold parse
  cases c.reset.compiler.buffer.fill source <;> rfl

theorem options_serve (c : Compiler) (r : Request) : (c.serve r).compiler.options = c.options := by
  cases r with
  | compile source => exact c.options_parse source
  | parse source => exact c.options_parse source
  | reset => rfl

/-- What the buffer held before has no influence on the reply. -/
theorem serve_eq_fresh (c : Compiler) (r : Request) : c.serve r = (fresh c.options).serve r := by
  cases r with
  | compile source =>
    have hcompiler : (c.compile source).compiler = ((fresh c.options).compile source).compiler :=
      c.compiler_parse source
    rw [serve, serve, outcome_compile, hcompiler]
  | parse source => rw [serve, serve, outcome_parse, compiler_parse]
  | reset => rfl

theorem replies_eq_map (c : Compiler) (rs : List Request) :
    c.replies rs = rs.map (fresh c.options).serve := by
  induction rs generalizing c with
  | nil => rfl
  | cons r rs ih =>
    rw [replies, ih, options_serve, List.map_cons, ← serve_eq_fresh]

end Compiler

/-! ## Where a run stops -/

theorem Token.Stream.Moves.cursor_lt {s t : Stream} (h : s.Moves t)
    (hcursor : s.cursor < s.tokens.size) (hlast : s.last.kind = .endOfInput) :
    t.cursor < s.tokens.size := by
  apply Nat.lt_of_not_le
  intro hend
  exact h.passed (s.tokens.size - 1) (by omega) (by omega) s.last s.getElem?_last hlast

/-- The buffer holds the tokens and has its cursor on one of them, which marks the end of the input
and is the last one where the run succeeded. -/
structure Settled (tokens : Array Token) (success : Bool) (left : Buffer) : Prop where
  tokens_eq : left.tokens = tokens
  cursor_le : left.cursor ≤ tokens.size - 1
  finished : success = true → left.cursor = tokens.size - 1 ∧
    ∃ mark, tokens[left.cursor]? = some mark ∧ mark.kind = .endOfInput

variable {ts : List Token} {length : Nat}

/-- Where only the last token marks the end of the input, a stream that shows such a mark is at the
last token. -/
theorem settled_of_moves {s t : Stream}
    (htokens : s.tokens = (ts ++ [Token.endOfInput length]).toArray) (hcursor : s.cursor = 0)
    (hkinds : ∀ token ∈ ts, token.kind ≠ .endOfInput) (hmoves : s.Moves t) {success : Bool}
    (hend : success = true → t.current.kind = .endOfInput) :
    Settled s.tokens success t.buffer := by
  have hsize : s.tokens.size = ts.length + 1 := by simp [htokens]
  have hlast : s.last.kind = .endOfInput := by
    simp [Stream.last, htokens, Token.endOfInput]
  have hlt : t.cursor < s.tokens.size := hmoves.cursor_lt (by omega) hlast
  have hcurrent : s.tokens[t.cursor]? = some t.current :=
    hmoves.tokens ▸ Stream.getElem?_current (hmoves.tokens ▸ hlt)
  refine ⟨hmoves.tokens, Nat.le_sub_one_of_lt hlt, ?_⟩
  intro hsuccess
  refine ⟨?_, t.current, hcurrent, hend hsuccess⟩
  change t.cursor = s.tokens.size - 1
  apply Nat.le_antisymm (Nat.le_sub_one_of_lt hlt)
  apply Nat.le_of_not_lt
  intro hinside
  rw [htokens, List.getElem?_toArray, List.getElem?_append_left (by omega)] at hcurrent
  exact hkinds _ (List.mem_of_getElem? hcurrent) (hend hsuccess)

theorem settled_parse {source : String} (hsize : source.utf8ByteSize < Span.limit)
    (c : Compiler) :
    ∃ buffer, Buffer.ofSource source = .ok buffer ∧
      Settled buffer.tokens (c.parse source).outcome.succeeded
        (c.parse source).compiler.buffer := by
  obtain ⟨ts, s, htokens, hbuffer, hs, hstokens, hscursor, hspans⟩ := exists_spanned hsize
  obtain ⟨houtcome, hcompiler⟩ := c.parse_of_ofSource hbuffer
  refine ⟨_, hbuffer, ?_⟩
  rw [houtcome, hcompiler, ← hstokens]
  unfold Parsing.parseProgram
  obtain ⟨program, n, hrun, hmoves, hend⟩ | ⟨p, n, hrun, hmoves, -⟩ :=
    Parsing.parse_cases hs hspans Parsing.safe_program
  · rw [hrun]
    exact settled_of_moves hstokens hscursor htokens.kind_ne_endOfInput hmoves fun _ => hend
  · rw [hrun]
    exact settled_of_moves hstokens hscursor htokens.kind_ne_endOfInput hmoves nofun

theorem settled_serve {r : Request} {source : String} (hsource : source ∈ r.source?)
    (hsize : source.utf8ByteSize < Span.limit) (c : Compiler) :
    ∃ buffer, Buffer.ofSource source = .ok buffer ∧
      Settled buffer.tokens (c.serve r).answer.succeeded (c.serve r).compiler.buffer := by
  obtain ⟨buffer, hbuffer, hsettled⟩ := settled_parse hsize c
  cases r with
  | compile text =>
    cases hsource
    refine ⟨buffer, hbuffer, ?_⟩
    change Settled buffer.tokens (Outcome.map _ (c.parse source).outcome).succeeded
      (c.parse source).compiler.buffer
    rwa [Outcome.succeeded_map]
  | parse text =>
    cases hsource
    exact ⟨buffer, hbuffer, hsettled⟩
  | reset => cases hsource

/-- However a compiler was used before, it replies to each request of a sequence like a new one, and
holds the tokens of the source afterwards. -/
theorem replies_memoryless (c : Compiler) (requests : List Request)
    (hsizes : ∀ r ∈ requests, ∀ source ∈ r.source?, source.utf8ByteSize < Span.limit) :
    c.replies requests = requests.map (Compiler.fresh c.options).serve ∧
      ∀ r ∈ requests, ∀ source ∈ r.source?, ∃ buffer, Buffer.ofSource source = .ok buffer ∧
        Settled buffer.tokens ((Compiler.fresh c.options).serve r).answer.succeeded
          ((Compiler.fresh c.options).serve r).compiler.buffer := by
  refine ⟨c.replies_eq_map requests, ?_⟩
  intro r hr source hsource
  exact settled_serve hsource (hsizes r hr source hsource) _

/-- A source that is rejected, and one that is read with the same compiler afterwards. -/
theorem replies_memoryless_after_failure :
    ((Compiler.fresh {}).serve (.compile "начало написать конец")).answer.succeeded = false ∧
      (Compiler.fresh {}).replies [.compile "начало написать конец", .parse "начало конец"] =
        [(Compiler.fresh {}).serve (.compile "начало написать конец"),
          (Compiler.fresh {}).serve (.parse "начало конец")] ∧
      ∃ buffer, Buffer.ofSource "начало конец" = .ok buffer ∧
        Settled buffer.tokens true
          ((Compiler.fresh {}).serve (.parse "начало конец")).compiler.buffer := by
  have hsizes : ∀ r ∈ [Request.compile "начало написать конец", .parse "начало конец"],
      ∀ source ∈ r.source?, source.utf8ByteSize < Span.limit := by
    decide
  obtain ⟨hreplies, hsettled⟩ := replies_memoryless (Compiler.fresh {}) _ hsizes
  have hsucceeded :
      ((Compiler.fresh {}).serve (.parse "начало конец")).answer.succeeded = true := by
    decide +kernel
  obtain ⟨buffer, hbuffer, hleft⟩ := hsettled (.parse "начало конец") (by simp) _ rfl
  exact ⟨by decide +kernel, hreplies, buffer, hbuffer, hsucceeded ▸ hleft⟩

end Bukvar
