import Bukvar.Program.Word

/-!
# Kinds of tokens

The kinds of tokens that the grammar tells apart. A type word carries its type and an
operator sign its operator, so both conversions are look-ups. `Conversion` describes one
that failed.
-/

namespace Bukvar.Token

/-- What a token is to the grammar. -/
inductive Kind where
  | programBegin
  | programEnd
  | semicolon
  | leftParen
  | rightParen
  | endOfInput
  | typeWord (type : VarType)
  | name
  | integerLiteral
  | doubleLiteral
  | stringLiteral
  | operator (op : Operator)
  | ifWord
  | thenWord
  | elseWord
  | endIf
  | loopBegin
  | times
  | loopEnd
  | whileWord
  | returnWord
  | writeWord
  | readWord
deriving DecidableEq

/-- A kind that was asked for something that it does not stand for. -/
structure Conversion where
  kind : Kind
  /-- What was asked for. -/
  target : String
deriving DecidableEq

namespace Kind

/-- The name of a kind in messages. -/
def label : Kind → String
  | .programBegin => "ProgramBegin"
  | .programEnd => "ProgramEnd"
  | .semicolon => "Semicolon"
  | .leftParen => "LeftParen"
  | .rightParen => "RightParen"
  | .endOfInput => "EndOfInput"
  | .typeWord type => type.label ++ "Type"
  | .name => "VariableName"
  | .integerLiteral => "IntegerLiteral"
  | .doubleLiteral => "DoubleLiteral"
  | .stringLiteral => "StringLiteral"
  | .operator op => op.label
  | .ifWord => "If"
  | .thenWord => "ControlBegin"
  | .elseWord => "Else"
  | .endIf => "ControlEnd"
  | .loopBegin => "LoopBegin"
  | .times => "LoopTimes"
  | .loopEnd => "LoopEnd"
  | .whileWord => "While"
  | .returnWord => "Return"
  | .writeWord => "Write"
  | .readWord => "Read"

/-- Every kind once. -/
def all : List Kind :=
  [.programBegin, .programEnd, .semicolon, .leftParen, .rightParen, .endOfInput,
    .typeWord .integer, .typeWord .double, .typeWord .string, .name, .integerLiteral,
    .doubleLiteral, .stringLiteral] ++ Operator.all.map .operator ++
  [.ifWord, .thenWord, .elseWord, .endIf, .loopBegin, .times, .loopEnd, .whileWord,
    .returnWord, .writeWord, .readWord]

/-- The kind with a given name. -/
def ofLabel? (label : String) : Option Kind :=
  all.find? (·.label = label)

/-- Whether the token names a type. -/
def isTypeWord : Kind → Bool
  | .typeWord _ => true
  | _ => false

/-- Whether the token compares. -/
def isComparison : Kind → Bool
  | .operator op => op.isComparison
  | _ => false

/-- Whether the token computes with numbers. -/
def isArithmetic : Kind → Bool
  | .operator op => op.isArithmetic
  | _ => false

/-- Whether the token closes some block. Where a statement is expected, such a token ends
the block around it. -/
def endsBlock : Kind → Bool
  | .endIf | .elseWord | .loopEnd | .programEnd | .endOfInput => true
  | _ => false

/-- The type that the token names. -/
def toVarType : Kind → Except Conversion VarType
  | .typeWord type => .ok type
  | kind => .error ⟨kind, "variable type"⟩

/-- The operator that the token stands for. -/
def toOperator : Kind → Except Conversion Operator
  | .operator op => .ok op
  | kind => .error ⟨kind, "binary operator"⟩

theorem mem_all (kind : Kind) : kind ∈ all := by
  cases kind with
  | typeWord type => cases type <;> decide
  | operator op => cases op <;> decide
  | _ => decide

end Kind

/-- What a failed conversion says. -/
def Conversion.message (c : Conversion) : String :=
  "token " ++ c.kind.label ++ " is not a valid " ++ c.target

end Bukvar.Token
