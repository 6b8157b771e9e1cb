import Bukvar.Decimal.Written
import Bukvar.Fault
import Bukvar.Layout
import Bukvar.Program.Basic
import Bukvar.Text.Quoted

/-!
# Outlines

The tree of a program as indented text, one node a line. An expression shows its span, and a
block its label, with a remark if it has no statements. The blanks before a line are counted
in sixteen bits, so an outline that is too deep for that cannot be written.

* `write_eq_ok_iff`: exactly which lines are written, and as what.
-/

namespace Bukvar.Outline

open Layout (Line)

/-- A span in parentheses, as it stands behind a node. -/
def spanText (span : Span) : String :=
  " (" ++ span.text ++ ")"

/-- The lines of an expression. -/
def exprLines (depth : Nat) : Expr → List Line
  | .binary op lhs rhs span =>
    ⟨depth, "binary " ++ op.label ++ spanText span⟩ ::
      exprLines (depth + 1) lhs ++ exprLines (depth + 1) rhs
  | .ident id span => [⟨depth, "ident " ++ id.name ++ spanText span⟩]
  | .integer value span => [⟨depth, "int " ++ Decimal.integerText value ++ spanText span⟩]
  | .double value span => [⟨depth, "double " ++ value.text ++ spanText span⟩]
  | .string value span => [⟨depth, "string " ++ Text.quoted value ++ spanText span⟩]

/-- The line of a declaration, and those of the value given in it. -/
def declareLines (depth : Nat) (type : VarType) (name : String) : Option Expr → List Line
  | none => [⟨depth, "declaration " ++ name ++ ": " ++ type.label⟩]
  | some init =>
    ⟨depth, "declaration " ++ name ++ ": " ++ type.label ++ " (initialized)"⟩ ::
      exprLines (depth + 1) init

/-- The line above a block. -/
def labelLine (depth : Nat) (label : String) (block : List Stmt) : Line :=
  ⟨depth, if block.isEmpty then label ++ " (empty)" else label⟩

mutual

/-- The lines of a statement. -/
def stmtLines (depth : Nat) : Stmt → List Line
  | .declare type name init => declareLines depth type name.name init
  | .assign expr => ⟨depth, "assignment"⟩ :: exprLines (depth + 1) expr
  | .write expr => ⟨depth, "write"⟩ :: exprLines (depth + 1) expr
  | .read target type =>
    [⟨depth, "read " ++ target.name ++ ": " ++ type.label ++ spanText target.span⟩]
  | .giveBack none => [⟨depth, "return"⟩]
  | .giveBack (some value) => ⟨depth, "return"⟩ :: exprLines (depth + 1) value
  | .branch condition body arms =>
    ⟨depth, "if"⟩ :: exprLines (depth + 1) condition ++
      labelLine (depth + 1) "then" body :: blockLines (depth + 2) body ++
      armsLines (depth + 1) arms
  | .counted count body =>
    ⟨depth, "counted loop"⟩ :: exprLines (depth + 1) count ++
      labelLine (depth + 1) "body" body :: blockLines (depth + 2) body
  | .loop condition body test =>
    ⟨depth, "while loop " ++ test.label⟩ :: exprLines (depth + 1) condition ++
      labelLine (depth + 1) "body" body :: blockLines (depth + 2) body

/-- The lines of the arms of a conditional. -/
def armsLines (depth : Nat) : Arms → List Line
  | .done => []
  | .otherwise body => labelLine depth "else" body :: blockLines (depth + 1) body
  | .elseIf condition body rest =>
    ⟨depth, "else if"⟩ :: exprLines (depth + 1) condition ++
      labelLine (depth + 1) "then" body :: blockLines (depth + 2) body ++
      armsLines depth rest

/-- The lines of the statements of a block. -/
def blockLines (depth : Nat) : List Stmt → List Line
  | [] => []
  | stmt :: rest => stmtLines depth stmt ++ blockLines depth rest

end

/-- One step of indentation. -/
def indent : String :=
  "  "

/-- The blanks before a line at a depth. -/
def blanksAt (depth : Nat) : Nat :=
  2 * depth

/-- Lines as text, unless one of them is too deep. -/
def write (lines : List Line) : Except Fault String :=
  if ∀ line ∈ lines, blanksAt line.depth ≤ 65535 then .ok (Layout.render indent lines)
  else .error .tooDeep

/-- An expression as an outline that starts at a depth. -/
def ofExpr (depth : Nat) (expr : Expr) : Except Fault String :=
  write (exprLines depth expr)

/-- A program as an outline that starts at a depth. -/
def ofProgram (depth : Nat) (program : Program) : Except Fault String :=
  write (blockLines depth program)

theorem write_eq_ok_iff {lines : List Line} {text : String} :
    write lines = .ok text ↔
      (∀ line ∈ lines, blanksAt line.depth ≤ 65535) ∧ text = Layout.render indent lines := by
  unfold write
  split
  next h =>
    rw [Except.ok.injEq]
    exact ⟨fun he => ⟨h, he.symm⟩, fun he => he.2.symm⟩
  next h =>
    constructor
    · intro he
      cases he
    · intro he
      exact absurd he.1 h

end Bukvar.Outline
