import Bukvar.Proofs.Decimal.Denotation
import Bukvar.Proofs.Grammar.Bare
import Bukvar.Proofs.Token.Classification
import Bukvar.Token.Basic

/-!
# The grammar of expressions

The grammar is stratified into five levels. A `Derivation` is a derivation tree of a level,
with one constructor for each of its rules; `Derivation.word` is the string of symbols that it
derives and `Derivation.tree` the expression that it stands for. Parentheses occur in the
derivation and in its word, and are gone from the tree. That a string has one derivation at
most is shown in `Uniqueness`.
-/

namespace Bukvar

/-- Whether the operator adds or subtracts. -/
def Operator.isAdditive : Operator → Bool
  | .add | .subtract => true
  | _ => false

/-- Whether the operator multiplies or divides. -/
def Operator.isMultiplicative : Operator → Bool
  | .multiply | .divide => true
  | _ => false

/-- The text between the quotes of a string literal. -/
def Text.stringOf (text : String) : String :=
  String.ofList text.toList.tail.dropLast

namespace Grammar

open Token (Kind)

/-! ## Symbols -/

/-- A terminal symbol: the kind of a token and, where the kind leaves it open, its text. -/
structure Symbol where
  kind : Kind
  text : String
deriving DecidableEq

/-- The symbol of a kind whose tokens differ in their place only. -/
def Symbol.mark (kind : Kind) : Symbol :=
  ⟨kind, ""⟩

/-- What the grammar sees of a token. -/
def symbol (t : Token) : Symbol :=
  ⟨t.kind, if t.kind.hasText then t.text else ""⟩

/-- A literal has a value: an integer fits thirty-two bits, and a floating-point number is
finite. Symbols that are no numbers are not concerned. -/
def Symbol.Fits (s : Symbol) : Prop :=
  (s.kind = .integerLiteral → Decimal.InRange (Decimal.integerOf s.text)) ∧
    (s.kind = .doubleLiteral → (Decimal.doubleOf s.text).isFinite = true)

instance (s : Symbol) : Decidable s.Fits :=
  inferInstanceAs (Decidable (_ ∧ _))

theorem fits_mark {kind : Kind} (h : kind.hasText = false) : (Symbol.mark kind).Fits := by
  constructor
  · rintro rfl
    cases h
  · rintro rfl
    cases h

theorem fits_name (text : String) : (⟨.name, text⟩ : Symbol).Fits := by
  constructor
  · intro h
    cases h
  · intro h
    cases h

@[simp] theorem kind_symbol (t : Token) : (symbol t).kind = t.kind := rfl

theorem text_symbol {t : Token} (h : t.kind.hasText = true) : (symbol t).text = t.text :=
  if_pos h

theorem symbol_eq_mark {t : Token} (h : t.kind.hasText = false) : symbol t = .mark t.kind := by
  rw [symbol, Symbol.mark, h]
  rfl

/-! ## Derivations -/

/-- The levels of the grammar, from the loosest to the tightest. -/
inductive Level where
  | assignment
  | comparison
  | sum
  | product
  | primary
deriving DecidableEq

/-- What can be assigned to: a name inside any number of parentheses. -/
inductive Target where
  | name (text : String)
  | group (inner : Target)

/-- The derivation trees of each level. -/
inductive Derivation : Level → Type where
  /-- `assignment ::= target '=' assignment` -/
  | assign (target : Target) (value : Derivation .assignment) : Derivation .assignment
  /-- `assignment ::= comparison` -/
  | ofComparison (inner : Derivation .comparison) : Derivation .assignment
  /-- `comparison ::= sum ('==' | '<' | '<=' | '>' | '>=') sum` -/
  | compare (lhs : Derivation .sum) (op : Operator) (hop : op.isComparison = true)
      (rhs : Derivation .sum) : Derivation .comparison
  /-- `comparison ::= sum` -/
  | ofSum (inner : Derivation .sum) : Derivation .comparison
  /-- `sum ::= sum ('+' | '-') product` -/
  | add (lhs : Derivation .sum) (op : Operator) (hop : op.isAdditive = true)
      (rhs : Derivation .product) : Derivation .sum
  /-- `sum ::= product` -/
  | ofProduct (inner : Derivation .product) : Derivation .sum
  /-- `product ::= product ('*' | '/') primary` -/
  | multiply (lhs : Derivation .product) (op : Operator) (hop : op.isMultiplicative = true)
      (rhs : Derivation .primary) : Derivation .product
  /-- `product ::= primary` -/
  | ofPrimary (inner : Derivation .primary) : Derivation .product
  /-- `primary ::= VariableName` -/
  | name (text : String) : Derivation .primary
  /-- `primary ::= IntegerLiteral` -/
  | integer (text : String) : Derivation .primary
  /-- `primary ::= DoubleLiteral` -/
  | double (text : String) : Derivation .primary
  /-- `primary ::= StringLiteral` -/
  | string (text : String) : Derivation .primary
  /-- `primary ::= '(' assignment ')'` -/
  | group (inner : Derivation .assignment) : Derivation .primary

/-- A word in parentheses. -/
def grouped (word : List Symbol) : List Symbol :=
  .mark .leftParen :: word ++ [.mark .rightParen]

/-- The symbols of a target. -/
def Target.word : Target → List Symbol
  | name text => [⟨.name, text⟩]
  | group inner => grouped inner.word

/-- The variable that a target stands for. -/
def Target.tree : Target → Expr
  | name text => .ident ⟨text, .empty 0⟩ (.empty 0)
  | group inner => inner.tree

theorem Target.isIdent_tree (t : Target) : t.tree.isIdent = true := by
  induction t with
  | name text => rfl
  | group inner ih => exact ih

namespace Derivation

/-- The string of symbols that is derived. -/
def word {l : Level} : Derivation l → List Symbol
  | assign target value => target.word ++ .mark (.operator .assign) :: value.word
  | compare lhs op _ rhs => lhs.word ++ .mark (.operator op) :: rhs.word
  | add lhs op _ rhs => lhs.word ++ .mark (.operator op) :: rhs.word
  | multiply lhs op _ rhs => lhs.word ++ .mark (.operator op) :: rhs.word
  | ofComparison inner => inner.word
  | ofSum inner => inner.word
  | ofProduct inner => inner.word
  | ofPrimary inner => inner.word
  | name text => [⟨.name, text⟩]
  | integer text => [⟨.integerLiteral, text⟩]
  | double text => [⟨.doubleLiteral, text⟩]
  | string text => [⟨.stringLiteral, text⟩]
  | group inner => grouped inner.word

/-- The expression that is derived. -/
def tree {l : Level} : Derivation l → Expr
  | assign target value => .binary .assign target.tree value.tree (.empty 0)
  | compare lhs op _ rhs => .binary op lhs.tree rhs.tree (.empty 0)
  | add lhs op _ rhs => .binary op lhs.tree rhs.tree (.empty 0)
  | multiply lhs op _ rhs => .binary op lhs.tree rhs.tree (.empty 0)
  | ofComparison inner => inner.tree
  | ofSum inner => inner.tree
  | ofProduct inner => inner.tree
  | ofPrimary inner => inner.tree
  | name text => .ident ⟨text, .empty 0⟩ (.empty 0)
  | integer text => .integer (Decimal.integerOf text) (.empty 0)
  | double text => .double (Decimal.doubleOf text) (.empty 0)
  | string text => .string (Text.stringOf text) (.empty 0)
  | group inner => inner.tree

end Derivation

/-! ## Levels of operators -/

/-- The height of a level: operators of a lower level bind more tightly. -/
def Level.rank : Level → Nat
  | primary => 0
  | product => 1
  | sum => 2
  | comparison => 3
  | assignment => 4

/-- The level of the rule that an operator belongs to. -/
def level : Operator → Level
  | .assign => .assignment
  | .equals | .less | .lessOrEqual | .greater | .greaterOrEqual => .comparison
  | .add | .subtract => .sum
  | .multiply | .divide => .product

theorem level_of_isComparison {op : Operator} (h : op.isComparison = true) :
    level op = .comparison := by
  revert h
  cases op <;> decide

theorem level_of_isAdditive {op : Operator} (h : op.isAdditive = true) : level op = .sum := by
  revert h
  cases op <;> decide

theorem level_of_isMultiplicative {op : Operator} (h : op.isMultiplicative = true) :
    level op = .product := by
  revert h
  cases op <;> decide

end Grammar

end Bukvar
