import Bukvar.Diagnostic.Problem
import Bukvar.Source.Position

/-!
# Rejected sources

A rejection is what the compiler answers instead of a result: either the source is not a
program, or the compiler broke a rule of its own. It can be shown without a place, with
byte offsets, or with a line and a column of the source.

* `ofProblem_span`: a rejection blames the stretch that its problem does.
-/

namespace Bukvar.Diagnostic

/-- Why there is no result. -/
inductive Rejection where
  /-- The source is not a program. -/
  | invalid (problem : Located Problem)
  /-- The compiler itself is to blame. -/
  | internal (failed : Located Token.Conversion)
deriving DecidableEq

namespace Rejection

/-- The rejection of a source for a problem. A failed conversion is the compiler's own. -/
def ofProblem : Located Problem → Rejection
  | ⟨span, .conversion failed⟩ => .internal ⟨span, failed⟩
  | problem => .invalid problem

/-- Whether the compiler itself is to blame. -/
def isInternal : Rejection → Bool
  | internal _ => true
  | invalid _ => false

/-- The stretch of the source that is to blame. -/
def span : Rejection → Span
  | invalid problem => problem.span
  | internal failed => failed.span

/-- The cause in words. -/
def cause : Rejection → String
  | invalid problem => problem.value.message
  | internal failed => failed.value.message

/-- Which side is to blame, as a heading. -/
def heading : Rejection → String
  | invalid _ => "syntax error"
  | internal _ => "internal error"

/-- The rejection without a place. -/
def message (r : Rejection) : String :=
  r.heading ++ ": " ++ r.cause

/-- The rejection with its span in bytes. -/
def alternate (r : Rejection) : String :=
  r.heading ++ " at " ++ r.span.text ++ ": " ++ r.cause

/-- The rejection with the line and the column in the source. -/
def render (r : Rejection) (source : String) : Except Fault String := do
  let position ← Position.ofOffset source r.span.lo
  return Decimal.naturalText position.line ++ ":" ++ Decimal.naturalText position.column ++
    ": " ++ r.message

theorem ofProblem_span (problem : Located Problem) : (ofProblem problem).span = problem.span := by
  obtain ⟨span, value⟩ := problem
  cases value <;> rfl

end Rejection

end Bukvar.Diagnostic
