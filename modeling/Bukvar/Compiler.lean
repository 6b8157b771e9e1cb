import Bukvar.Diagnostic.Rejection
import Bukvar.Journal
import Bukvar.Listing.Basic
import Bukvar.Parsing.Run

/-!
# Compiling sources

A compiler has options and a buffer for the tokens of its last run. Every run drops what
the buffer held, so a run depends on the options and the source alone; the buffer is kept
only to be looked at afterwards.

* `outcome_parse`, `outcome_compile`: a used compiler answers like a new one
  with the same options.
-/

namespace Bukvar

open Diagnostic (Rejection)
open Journal (Event)
open Token (Buffer)

/-- The answer to a source. -/
inductive Outcome (α : Type) where
  | done (value : α)
  | rejected (rejection : Rejection)
  | fault (fault : Fault)
deriving DecidableEq

/-- The answer with its value changed. -/
def Outcome.map {α β : Type} (f : α → β) : Outcome α → Outcome β
  | done value => done (f value)
  | rejected r => rejected r
  | fault f => fault f

/-- The answer with its value handed on to a call that may have no answer. -/
def Outcome.andThen {α β : Type} (f : α → Except Fault β) : Outcome α → Outcome β
  | done value =>
    match f value with
    | .ok result => done result
    | .error e => fault e
  | rejected r => rejected r
  | fault e => fault e

/-- What a parser answered, with a problem taken as the rejection of the source. -/
def Outcome.ofParser {α : Type} : Except Parsing.Failure α → Outcome α
  | .ok value => done value
  | .error (.problem problem) => rejected (.ofProblem problem)
  | .error (.fault f) => fault f

/-- Options and the tokens of the last run. -/
structure Compiler where
  options : Listing.Options
  buffer : Buffer

namespace Compiler

/-- A compiler that has not run yet. -/
def fresh (options : Listing.Options) : Compiler :=
  ⟨options, .empty⟩

/-- An answer, what was noted on the way, and the compiler afterwards. -/
structure Step (α : Type) where
  outcome : Outcome α
  events : List Event
  compiler : Compiler

/-- Drops the tokens of the last run. -/
def reset (c : Compiler) : Step Unit :=
  ⟨.done (), [.discarded c.buffer.size], { c with buffer := c.buffer.clear }⟩

/-- The events of splitting a source into the tokens of a buffer. -/
def lexingEvents (buffer : Buffer) : List Event :=
  buffer.tokens.toList.dropLast.map .unit ++ [.lexed buffer.size]

/-- The events of reading a program from a buffer of some size. -/
def parsingEvents (size : Nat) : Except Parsing.Failure Program → List Event
  | .ok program => [.parsing size, .parsed program.length]
  | .error _ => [.parsing size]

/-- Reads the program of a source. -/
def parse (c : Compiler) (source : String) : Step Program :=
  match c.reset.compiler.buffer.fill source with
  | .error fault => ⟨.fault fault, c.reset.events, c.reset.compiler⟩
  | .ok buffer =>
    let run := Parsing.parseProgram buffer
    ⟨.ofParser run.outcome,
      c.reset.events ++ lexingEvents buffer ++ parsingEvents buffer.size run.outcome,
      { c with buffer := run.buffer }⟩

/-- The event of producing a listing. -/
def listingEvents : Outcome String → List Event
  | .done code => [.generated code.utf8ByteSize]
  | _ => []

/-- Compiles the program of a source. -/
def compile (c : Compiler) (source : String) : Step String :=
  let step := c.parse source
  let outcome := step.outcome.map (Listing.generate c.options)
  ⟨outcome, step.events ++ listingEvents outcome, step.compiler⟩

theorem outcome_compile_of_parse {c : Compiler} {source : String} {p : Program}
    (h : (c.parse source).outcome = .done p) :
    (c.compile source).outcome = .done (Listing.generate c.options p) :=
  congrArg (Outcome.map _) h

theorem buffer_reset (c : Compiler) : c.reset.compiler.buffer = .empty := rfl

theorem outcome_parse (c : Compiler) (source : String) :
    (c.parse source).outcome = ((fresh c.options).parse source).outcome := by
  rw [parse, parse, buffer_reset, buffer_reset]
  cases Buffer.empty.fill source <;> rfl

theorem compiler_parse (c : Compiler) (source : String) :
    (c.parse source).compiler = ((fresh c.options).parse source).compiler := by
  rw [parse, parse, buffer_reset, buffer_reset]
  cases Buffer.empty.fill source <;> rfl

theorem outcome_compile (c : Compiler) (source : String) :
    (c.compile source).outcome = ((fresh c.options).compile source).outcome := by
  change Outcome.map _ (c.parse source).outcome = Outcome.map _ (Compiler.parse _ source).outcome
  rw [outcome_parse]
  rfl

end Compiler

/-- Compiles a source with the usual options. -/
def compile (source : String) : Outcome String :=
  ((Compiler.fresh {}).compile source).outcome

end Bukvar
