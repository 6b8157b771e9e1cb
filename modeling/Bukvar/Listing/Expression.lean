import Bukvar.Decimal.Written
import Bukvar.Program.Basic

/-!
# Expressions in C#

The tree does not record parentheses. Every operation is therefore written in parentheses,
except for an assignment, which gets them only as the operand of another operation: a chain
of assignments groups to the right by itself.
-/

namespace Bukvar.Listing

/-- Whether the outermost operation is an assignment. -/
def isAssignment : Expr → Bool
  | .binary .assign .. => true
  | _ => false

/-- A text in parentheses. -/
def parenthesized (text : String) : String :=
  "(" ++ text ++ ")"

/-- Puts the text of an operand into parentheses if it is an assignment. -/
def operandText (operand : Expr) (text : String) : String :=
  if isAssignment operand then parenthesized text else text

/-- An expression in C#. -/
def exprText : Expr → String
  | .binary .assign lhs rhs _ => exprText lhs ++ " = " ++ exprText rhs
  | .binary op lhs rhs _ =>
    parenthesized (operandText lhs (exprText lhs) ++ " " ++ op.symbol ++ " " ++
      operandText rhs (exprText rhs))
  | .ident id _ => id.name
  | .integer value _ => Decimal.integerText value
  | .double value _ => value.text
  | .string value _ => "\"" ++ value ++ "\""

end Bukvar.Listing
