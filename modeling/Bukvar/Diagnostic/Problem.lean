import Bukvar.Decimal.Integer
import Bukvar.Token.Stream

/-!
# What can be wrong with a source

A problem is the cause alone; the stretch of the source to blame for it comes with it as a
`Located Problem`. All wording is in `Problem.message`.
-/

namespace Bukvar.Diagnostic

open Token (Kind)

/-- The reasons for which a token stream is refused. -/
inductive Problem where
  /-- One kind of token had to come and another one came. -/
  | unexpected (actual expected : Kind)
  /-- One of several kinds of tokens had to come and another one came. -/
  | unexpectedAny (actual : Kind) (expected : List Kind)
  /-- No statement starts with this token. -/
  | notAStatement (actual : Kind)
  /-- No expression starts with this token. -/
  | notAnOperand (actual : Kind)
  /-- A block was not closed; the span is that of the word which opened it. -/
  | unterminated (opener expected : Kind)
  /-- Something other than a variable was to be assigned. -/
  | assignmentTarget
  /-- The result of a comparison was compared without parentheses. -/
  | chainedComparison
  /-- A loop has neither a count nor a condition. -/
  | loopWithoutCondition
  /-- A value was to be read into a variable that no statement before declares. -/
  | undeclared (name : String)
  /-- A literal has a value that its type cannot hold. -/
  | literalOutOfRange
  /-- A literal token does not have the form of its literal. -/
  | malformedLiteral
  /-- The tokens ended too early. -/
  | outOfTokens
  /-- The parser asked a kind of token for something that it does not stand for. -/
  | conversion (failed : Token.Conversion)
deriving DecidableEq

/-- A list of kinds as text. -/
def kindList (kinds : List Kind) : String :=
  "[" ++ ", ".intercalate (kinds.map Kind.label) ++ "]"

/-- What a problem says. -/
def Problem.message : Problem → String
  | unexpected actual expected =>
    "expected token " ++ expected.label ++ ", but got " ++ actual.label
  | unexpectedAny actual expected =>
    "expected one of " ++ kindList expected ++ ", but got " ++ actual.label
  | notAStatement actual => "expected a type keyword or statement, but got " ++ actual.label
  | notAnOperand actual => "unexpected token " ++ actual.label ++ " in expression"
  | unterminated opener expected =>
    "unterminated " ++ opener.label ++ " block, expected " ++ expected.label
  | assignmentTarget => "invalid assignment target"
  | chainedComparison => "comparisons can't be chained"
  | loopWithoutCondition => "loop has neither a count nor a condition"
  | undeclared name => "can't read into undeclared " ++ name
  | literalOutOfRange => "literal out of bounds"
  | malformedLiteral => "malformed literal"
  | outOfTokens => "unexpected end of input"
  | conversion failed => "internal error: " ++ failed.message

/-- The problem behind a literal without a value. -/
def Problem.ofLiteralError : Decimal.LiteralError → Problem
  | .malformed => .malformedLiteral
  | .outOfRange => .literalOutOfRange

/-- The problem behind a refusal of the token stream. -/
def Problem.ofRefusal : Token.Refusal → Located Problem
  | .outOfTokens span => ⟨span, .outOfTokens⟩
  | .mismatch expected found span => ⟨span, .unexpected found expected⟩

/-- A problem with its span in front. -/
def alternate (p : Located Problem) : String :=
  p.span.text ++ ": " ++ p.value.message

end Bukvar.Diagnostic
