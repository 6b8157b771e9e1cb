/-!
# Types and operators of the language

The words that a program shares with its tokens: the types of variables and the binary
operators.
-/

namespace Bukvar

/-- The types that a variable can have. -/
inductive VarType where
  | integer
  | double
  | string
deriving DecidableEq

/-- The name of a type in tree dumps. -/
def VarType.label : VarType → String
  | .integer => "Integer"
  | .double => "Double"
  | .string => "String"

/-- The binary operators, the assignment among them. -/
inductive Operator where
  | add
  | subtract
  | multiply
  | divide
  | assign
  | equals
  | less
  | lessOrEqual
  | greater
  | greaterOrEqual
deriving DecidableEq

namespace Operator

/-- The name of an operator in tree dumps and messages. -/
def label : Operator → String
  | .add => "Add"
  | .subtract => "Subtract"
  | .multiply => "Multiply"
  | .divide => "Divide"
  | .assign => "Assign"
  | .equals => "Equals"
  | .less => "Less"
  | .lessOrEqual => "LessOrEqual"
  | .greater => "Greater"
  | .greaterOrEqual => "GreaterOrEqual"

/-- How an operator is spelled, in pseudocode and in C# alike. -/
def symbol : Operator → String
  | .add => "+"
  | .subtract => "-"
  | .multiply => "*"
  | .divide => "/"
  | .assign => "="
  | .equals => "=="
  | .less => "<"
  | .lessOrEqual => "<="
  | .greater => ">"
  | .greaterOrEqual => ">="

/-- Every operator once. -/
def all : List Operator :=
  [.add, .subtract, .multiply, .divide, .assign, .equals, .less, .lessOrEqual, .greater,
    .greaterOrEqual]

/-- Whether the operator compares its operands. -/
def isComparison : Operator → Bool
  | .equals | .less | .lessOrEqual | .greater | .greaterOrEqual => true
  | .add | .subtract | .multiply | .divide | .assign => false

/-- Whether the operator computes with numbers. -/
def isArithmetic : Operator → Bool
  | .add | .subtract | .multiply | .divide => true
  | .assign | .equals | .less | .lessOrEqual | .greater | .greaterOrEqual => false

theorem mem_all (op : Operator) : op ∈ all := by
  cases op <;> decide

end Operator

end Bukvar
