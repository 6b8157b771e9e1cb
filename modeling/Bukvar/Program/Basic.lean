import Bukvar.Decimal.Binary64
import Bukvar.Program.Word
import Bukvar.Source.Span

/-!
# Programs

The tree of a program. An expression carries its span at every node; parentheses leave no
trace in the tree except that they widen the span of what they enclose.
-/

namespace Bukvar

/-- A name where it occurs in a source. -/
structure Ident where
  name : String
  span : Span
deriving DecidableEq

/-- The expressions. -/
inductive Expr where
  | binary (op : Operator) (lhs rhs : Expr) (span : Span)
  | ident (id : Ident) (span : Span)
  | integer (value : Int) (span : Span)
  | double (value : Decimal.Binary64) (span : Span)
  | string (value : String) (span : Span)
deriving DecidableEq

namespace Expr

/-- The stretch of the source that an expression stands for. -/
def span : Expr → Span
  | binary _ _ _ span => span
  | ident _ span => span
  | integer _ span => span
  | double _ span => span
  | string _ span => span

/-- The same expression over another stretch of the source. -/
def withSpan (span : Span) : Expr → Expr
  | binary op lhs rhs _ => binary op lhs rhs span
  | ident id _ => ident id span
  | integer value _ => integer value span
  | double value _ => double value span
  | string value _ => string value span

/-- Whether the expression is a variable, the only thing that takes an assignment. -/
def isIdent : Expr → Bool
  | ident .. => true
  | _ => false

@[simp] theorem span_withSpan (e : Expr) (s : Span) : (e.withSpan s).span = s := by
  cases e <;> rfl

end Expr

/-- When a loop looks at its condition: before each round or behind it. -/
inductive LoopTest where
  | pre
  | post
deriving DecidableEq

/-- The name of a loop's kind in tree dumps. -/
def LoopTest.label : LoopTest → String
  | .pre => "Pre"
  | .post => "Post"

mutual

/-- The statements. -/
inductive Stmt where
  | declare (type : VarType) (name : Ident) (init : Option Expr)
  | assign (expr : Expr)
  | write (expr : Expr)
  | read (target : Ident) (type : VarType)
  | giveBack (value : Option Expr)
  | branch (condition : Expr) (body : List Stmt) (arms : Arms)
  | counted (count : Expr) (body : List Stmt)
  | loop (condition : Expr) (body : List Stmt) (test : LoopTest)

/-- What follows the first body of a conditional: further conditions in order, and at the
end a body without one, which may also be absent. -/
inductive Arms where
  | done
  | otherwise (body : List Stmt)
  | elseIf (condition : Expr) (body : List Stmt) (rest : Arms)

end

/-- A program is the list of its statements. -/
abbrev Program := List Stmt

end Bukvar
