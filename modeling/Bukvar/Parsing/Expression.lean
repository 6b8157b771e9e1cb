import Bukvar.Decimal.Reader
import Bukvar.Parsing.Parser

/-!
# Reading expressions

Operators bind by precedence: multiplication and division above addition and subtraction,
these above the comparisons, and the assignment below all. An operator is taken when its
left power reaches the least power that its surroundings ask for, and its right operand
asks for its right power. Equal operators therefore group to the left, except for the
assignment, which groups to the right; a comparison does not continue another one.

The recursion is bounded by the number of tokens left, since every call passes at least one.
-/

namespace Bukvar

/-- How strongly an operator pulls at what stands before it. -/
def Operator.leftPower : Operator → Nat
  | .assign => 2
  | .equals | .less | .lessOrEqual | .greater | .greaterOrEqual => 3
  | .add | .subtract => 5
  | .multiply | .divide => 7

/-- How strongly the right operand of an operator has to hold together. -/
def Operator.rightPower : Operator → Nat
  | .assign => 1
  | .equals | .less | .lessOrEqual | .greater | .greaterOrEqual => 4
  | .add | .subtract => 6
  | .multiply | .divide => 8

end Bukvar

namespace Bukvar.Parsing

open Token (Kind)
open Diagnostic (Problem)

/-- The text of a string literal without its quotes. -/
def unquote? (text : String) : Option String :=
  match text.toList with
  | '"' :: cs => if cs.getLast? = some '"' then some (String.ofList cs.dropLast) else none
  | _ => none

/-- The value of a literal at its place, or the problem with it. -/
def literal {α : Type} (span : Span) (value : Except Decimal.LiteralError α)
    (wrap : α → Span → Expr) : Parser Expr :=
  match value with
  | .ok a => return wrap a span
  | .error e => reject span (.ofLiteralError e)

/-- The operand that a passed token starts. Behind an opening parenthesis `inner` reads
what it encloses. -/
def operand (inner : Parser Expr) (token : Token) : Parser Expr :=
  match token.kind with
  | .name => return .ident ⟨token.text, token.span⟩ token.span
  | .integerLiteral => literal token.span (Decimal.readInteger token.text) .integer
  | .doubleLiteral => literal token.span (Decimal.readDouble token.text) .double
  | .stringLiteral =>
    literal token.span ((unquote? token.text).elim (.error .malformed) .ok) .string
  | .leftParen => do
    let expr ← inner
    let close ← expect .rightParen
    return expr.withSpan (← cover token.span close.span)
  | actual => reject token.span (.notAnOperand actual)

/-- How strongly the token of an operator pulls at its two sides. -/
structure Powers where
  left : Nat
  right : Nat

/-- The powers of a token between two operands. Other tokens end an expression. -/
def infixPowers? : Kind → Option Powers
  | .operator op => some ⟨op.leftPower, op.rightPower⟩
  | _ => none

/-- Joins both sides of a passed operator, of which `inner` reads the right one. -/
def joined (inner : Parser Expr) (op : Operator) (lhs : Expr) : Parser Expr := do
  if op = .assign ∧ ¬ lhs.isIdent then reject lhs.span .assignmentTarget
  let rhs ← inner
  let following ← current
  if op.isComparison ∧ following.kind.isComparison then
    reject following.span .chainedComparison
  return .binary op lhs rhs (← cover lhs.span rhs.span)

mutual

/-- An expression whose operators have at least the given power. -/
def expressionWithin : Nat → Nat → Parser Expr
  | 0, _ => fail .outOfFuel
  | fuel + 1, least => do
    let token ← advance
    let lhs ← operand (expressionWithin fuel 0) token
    operatorsWithin fuel least lhs

/-- The operators of at least the given power that follow an expression. -/
def operatorsWithin : Nat → Nat → Expr → Parser Expr
  | 0, _, _ => fail .outOfFuel
  | fuel + 1, least, lhs => do
    let token ← current
    match infixPowers? token.kind with
    | none => return lhs
    | some powers =>
      if powers.left < least then return lhs
      let _ ← advance
      let op ← converted Kind.toOperator token
      let expr ← joined (expressionWithin fuel powers.right) op lhs
      operatorsWithin fuel least expr

end

/-- An expression, up to the first token that cannot continue it. -/
def expression : Parser Expr := do
  expressionWithin ((← get).stream.remaining + 1) 0

end Bukvar.Parsing
