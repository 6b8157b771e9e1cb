import Bukvar.Parsing.Statement

/-!
# Parsing a buffer

A buffer is parsed from its cursor on. The answer comes with the buffer as the parser left
it, also where the parser failed. A buffer without tokens was never filled, and is refused
like one that ended too early.
-/

namespace Bukvar.Parsing

open Token (Buffer)

/-- The answer of a parser and the buffer that it left. -/
structure Run (α : Type) where
  outcome : Except Failure α
  buffer : Buffer

/-- Runs a parser from the cursor of a buffer, with nothing declared. -/
def parse {α : Type} (parser : Parser α) (buffer : Buffer) : Run α :=
  match buffer.stream? with
  | none => ⟨.error (.problem ⟨.empty 0, .outOfTokens⟩), buffer⟩
  | some stream =>
    match parser ⟨stream, []⟩ with
    | .ok value state => ⟨.ok value, state.stream.buffer⟩
    | .error failure state => ⟨.error failure, state.stream.buffer⟩

/-- Reads a whole program from a buffer. -/
def parseProgram (buffer : Buffer) : Run Program :=
  parse program buffer

/-- Reads a single expression from a buffer. -/
def parseExpression (buffer : Buffer) : Run Expr :=
  parse expressionOnly buffer

end Bukvar.Parsing
