import Bukvar.Listing.Expression
import Bukvar.Listing.Sheet

/-!
# Statements in C#

A statement is written at the depth of its block. Two more facts about its surroundings enter:
whether `Main` returns a number, and how many counted loops are around, because every counted
loop needs a counter of its own.

* `returnsValue_append`: a return with a value is looked for in all statements.
-/

namespace Bukvar.Listing

/-! ## Returns -/

mutual

/-- Whether a value is returned somewhere in a statement. -/
def stmtReturnsValue : Stmt → Bool
  | .giveBack value => value.isSome
  | .branch _ body arms => returnsValue body || armsReturnValue arms
  | .counted _ body => returnsValue body
  | .loop _ body _ => returnsValue body
  | .declare .. | .assign _ | .write _ | .read .. => false

/-- Whether a value is returned somewhere in the arms of a conditional. -/
def armsReturnValue : Arms → Bool
  | .done => false
  | .otherwise body => returnsValue body
  | .elseIf _ body rest => returnsValue body || armsReturnValue rest

/-- Whether a value is returned somewhere in a block. -/
def returnsValue : List Stmt → Bool
  | [] => false
  | stmt :: rest => stmtReturnsValue stmt || returnsValue rest

end

/-- Whether a statement is a return. -/
def isReturn : Stmt → Bool
  | .giveBack _ => true
  | _ => false

/-! ## Writing -/

/-- The name of a type in C#. -/
def typeName : VarType → String
  | .integer => "int"
  | .double => "double"
  | .string => "string"

/-- The statement that reads a line of input into a variable. -/
def readText (name : String) : VarType → String
  | .integer => name ++ " = int.Parse(Console.ReadLine()!);"
  | .double =>
    name ++ " = double.Parse(Console.ReadLine()!, " ++
      "System.Globalization.CultureInfo.InvariantCulture);"
  | .string => name ++ " = Console.ReadLine() ?? string.Empty;"

/-- The statement that declares a variable. -/
def declareText (type : VarType) (name : String) : Option Expr → String
  | none => typeName type ++ " " ++ name ++ ";"
  | some init => typeName type ++ " " ++ name ++ " = " ++ exprText init ++ ";"

/-- The return statement. Where `Main` returns a number, a bare return gives zero. -/
def returnText (intMain : Bool) : Option Expr → String
  | some value => "return " ++ exprText value ++ ";"
  | none => if intMain then "return 0;" else "return;"

/-- The header of a counted loop. -/
def forText (counter count : String) : String :=
  "for (int " ++ counter ++ " = 0; " ++ counter ++ " < " ++ count ++ "; " ++ counter ++ "++)"

mutual

/-- Writes the lines of a statement. -/
def writeStmt (indent : String) (intMain : Bool) : Stmt → Writer
  | .declare type name init => writeLine indent (declareText type name.name init)
  | .assign expr => writeLine indent (exprText expr ++ ";")
  | .write expr => writeLine indent ("Console.WriteLine(" ++ exprText expr ++ ");")
  | .read target type => writeLine indent (readText target.name type)
  | .giveBack value => writeLine indent (returnText intMain value)
  | .branch condition body arms => do
    writeLine indent ("if (" ++ exprText condition ++ ")")
    writeBraced indent (writeBlock indent intMain body)
    writeArms indent intMain arms
  | .counted count body => counting fun number => do
    writeLine indent (forText ("_i" ++ Decimal.naturalText number) (exprText count))
    writeBraced indent (writeBlock indent intMain body)
  | .loop condition body .pre => do
    writeLine indent ("while (" ++ exprText condition ++ ")")
    writeBraced indent (writeBlock indent intMain body)
  | .loop condition body .post => do
    writeLine indent "do"
    writeBraced indent (writeBlock indent intMain body)
    writeLine indent ("while (" ++ exprText condition ++ ");")

/-- Writes the arms of a conditional. A last arm without statements is left out. -/
def writeArms (indent : String) (intMain : Bool) : Arms → Writer
  | .done => return
  | .otherwise body => do
    if !body.isEmpty then
      writeLine indent "else"
      writeBraced indent (writeBlock indent intMain body)
  | .elseIf condition body rest => do
    writeLine indent ("else if (" ++ exprText condition ++ ")")
    writeBraced indent (writeBlock indent intMain body)
    writeArms indent intMain rest

/-- Writes the statements of a block. -/
def writeBlock (indent : String) (intMain : Bool) : List Stmt → Writer
  | [] => return
  | stmt :: rest => do
    writeStmt indent intMain stmt
    writeBlock indent intMain rest

end

theorem returnsValue_append (as bs : List Stmt) :
    returnsValue (as ++ bs) = (returnsValue as || returnsValue bs) := by
  induction as with
  | nil => simp [returnsValue]
  | cons a as ih => simp [returnsValue, ih, Bool.or_assoc]

end Bukvar.Listing
