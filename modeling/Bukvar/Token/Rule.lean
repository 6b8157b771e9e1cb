import Bukvar.Token.Kind

/-!
# Classification of units

The kind of a unit follows from its text alone. The rules are tried in order: four lists of
fixed words, then the shapes of literals and of punctuation. A unit that no rule accepts is
a name.
-/

namespace Bukvar.Token

/-- The words around a program. -/
def delimiters : List (String × Kind) :=
  [("начало", .programBegin), ("конец", .programEnd)]

/-- The words that name types. -/
def typeWords : List (String × Kind) :=
  [("цел", .typeWord .integer), ("плав", .typeWord .double), ("строка", .typeWord .string)]

/-- The words of statements. -/
def keywords : List (String × Kind) :=
  [("если", .ifWord), ("то", .thenWord), ("иначе", .elseWord), ("кесли", .endIf),
    ("нц", .loopBegin), ("раз", .times), ("кц", .loopEnd), ("пока", .whileWord),
    ("вернуть", .returnWord), ("написать", .writeWord), ("прочитать", .readWord)]

/-- The signs of operators. -/
def operatorSigns : List (String × Kind) :=
  Operator.all.map fun op => (op.symbol, .operator op)

/-- A unit without the minus sign at its front, if there is one. -/
def withoutMinus : List Char → List Char
  | '-' :: cs => cs
  | cs => cs

/-- Whether a text is made of digits, and of at least one. -/
def isDigits (cs : List Char) : Bool :=
  !cs.isEmpty && cs.all Char.isDigit

/-- Digits, possibly after a minus sign. -/
def isInteger (unit : List Char) : Bool :=
  isDigits (withoutMinus unit)

/-- Digits on both sides of the first point, possibly after a minus sign. -/
def isDouble (unit : List Char) : Bool :=
  let cs := withoutMinus unit
  match cs.dropWhile (· ≠ '.') with
  | [] => false
  | _ :: fraction => isDigits (cs.takeWhile (· ≠ '.')) && isDigits fraction

/-- A quote at the front and another one at the end. -/
def isString : List Char → Bool
  | '"' :: cs => cs.getLast? = some '"'
  | _ => false

/-- A rule that gives units their kind. -/
inductive Rule where
  /-- The unit is one of the listed words. -/
  | exact (words : List (String × Kind))
  /-- The unit has a certain shape. -/
  | shape (accepts : List Char → Bool) (kind : Kind)

/-- The kind that a rule gives to a unit, if it accepts it. -/
def Rule.kind? (unit : String) : Rule → Option Kind
  | exact words => words.lookup unit
  | shape accepts kind => if accepts unit.toList then some kind else none

/-- The rules in the order in which they are tried. -/
def rules : List Rule :=
  [.exact delimiters, .exact typeWords, .exact keywords, .exact operatorSigns,
    .shape isInteger .integerLiteral, .shape isDouble .doubleLiteral,
    .shape isString .stringLiteral, .shape (· = [';']) .semicolon,
    .shape (· = ['(']) .leftParen, .shape (· = [')']) .rightParen]

/-- The kind of a unit: that of the first rule which accepts it, a name without one. -/
def classify (unit : String) : Kind :=
  (rules.findSome? (Rule.kind? unit)).getD .name

end Bukvar.Token
