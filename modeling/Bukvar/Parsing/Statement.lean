import Bukvar.Parsing.Expression

/-!
# Reading statements

The current token decides which statement comes, up to the loops: behind the word that opens
a loop stand a condition, a count, or statements with a condition after them. A block ends at
one of the words that its surroundings wait for; another word that closes blocks shows that
the block was left open, and then the word that opened it is to blame.

Statements, blocks, the arms of a conditional and the rounds of a loop call each other. A
statement passes a token before it reads a block and a block passes a statement before it
goes on, so twice the number of tokens left bounds the recursion.
-/

namespace Bukvar.Parsing

open Token (Kind)

/-- A reader of blocks: it is told the token that opened the block, the word that closes it
and the words at which to stop. It does not pass the word at which it stops. -/
abbrev BlockParser := Token → Kind → List Kind → Parser (List Stmt)

/-! ## Statements without blocks -/

/-- A declaration behind its type word, its variable known from behind it on. -/
def declarator (type : VarType) : Parser Stmt := do
  let name ← ident
  let init ← if ← take (.operator .assign) then some <$> expression else pure none
  let _ ← expect .semicolon
  declare name.name type
  return .declare type name init

/-- A declaration: the word of a type and a variable of that type. -/
def declaration : Parser Stmt := do
  let token ← advance
  let type ← converted Kind.toVarType token
  declarator type

/-- An assignment as a statement: a name and directly behind it the sign. -/
def assignment : Parser Stmt := do
  let following ← next
  if following.kind ≠ .operator .assign then
    reject following.span (.unexpected following.kind (.operator .assign))
  let expr ← expression
  let _ ← expect .semicolon
  return .assign expr

/-- A statement that writes a value. -/
def writing : Parser Stmt := do
  let _ ← advance
  let expr ← expression
  let _ ← expect .semicolon
  return .write expr

/-- A statement that reads a value into a declared variable. -/
def reading : Parser Stmt := do
  let _ ← advance
  let target ← ident
  match ← typeOf? target.name with
  | none => reject target.span (.undeclared target.name)
  | some type =>
    let _ ← expect .semicolon
    return .read target type

/-- A statement that ends the program, with or without a value. -/
def returning : Parser Stmt := do
  let _ ← advance
  if ← take .semicolon then return .giveBack none
  let expr ← expression
  let _ ← expect .semicolon
  return .giveBack (some expr)

/-! ## Conditionals -/

/-- A condition and the word behind it. -/
def condition : Parser Expr := do
  let expr ← expression
  let _ ← expect .thenWord
  return expr

/-- A conditional; `arms` reads what follows its first body. -/
def conditional (block : BlockParser) (arms : Token → Parser Arms) : Parser Stmt := do
  let opener ← advance
  let first ← condition
  let body ← block opener .endIf [.elseWord, .endIf]
  let rest ← arms opener
  let _ ← expect .endIf
  return .branch first body rest

/-! ## Loops -/

/-- The body of a loop and the word behind it. -/
def loopBody (block : BlockParser) (opener : Token) : Parser (List Stmt) := do
  let body ← block opener .loopEnd [.loopEnd]
  let _ ← expect .loopEnd
  return body

/-- The rest of a loop whose condition stands before the word that opens it. -/
def afterCondition (block : BlockParser) (condition : Expr) : Parser Stmt := do
  let opener ← expect .loopBegin
  let body ← loopBody block opener
  return .loop condition body .pre

/-- A loop that starts with its condition. -/
def conditionFirst (block : BlockParser) : Parser Stmt := do
  let _ ← expect .whileWord
  let condition ← expression
  afterCondition block condition

/-- Whether a count comes. No statement starts with a number or a parenthesis, and a name
that starts one has the assignment sign behind it. -/
def countAhead : Parser Bool := do
  let following ← next
  match (← current).kind with
  | .integerLiteral | .leftParen => return true
  | .name => return following.kind = .times || following.kind.isArithmetic
  | _ => return false

/-- A loop that starts with the word that opens it; `rounds` reads a body with its condition
behind it. -/
def loopFirst (block : BlockParser) (rounds : Token → Parser (List Stmt × Expr)) :
    Parser Stmt := do
  let opener ← expect .loopBegin
  if ← take .whileWord then
    let condition ← expression
    let body ← loopBody block opener
    return .loop condition body .pre
  if ← countAhead then
    let count ← expression
    let _ ← expect .times
    let body ← loopBody block opener
    return .counted count body
  let (body, condition) ← rounds opener
  return .loop condition body .post

/-! ## All statements -/

mutual

/-- A statement. -/
def statementWithin : Nat → Parser Stmt
  | 0 => fail .outOfFuel
  | fuel + 1 => do
    let token ← current
    if token.kind.isTypeWord then declaration
    else match token.kind with
    | .name => assignment
    | .ifWord => conditional (blockWithin fuel) (armsWithin fuel)
    | .loopBegin => loopFirst (blockWithin fuel) (roundsWithin fuel)
    | .whileWord => conditionFirst (blockWithin fuel)
    | .writeWord => writing
    | .readWord => reading
    | .returnWord => returning
    | actual => reject token.span (.notAStatement actual)

/-- The statements up to one of the words at which to stop. -/
def blockWithin : Nat → BlockParser
  | 0, _, _, _ => fail .outOfFuel
  | fuel + 1, opener, closer, stops => do
    let kind := (← current).kind
    if kind ∈ stops then return []
    if kind.endsBlock then reject opener.span (.unterminated opener.kind closer)
    let stmt ← statementWithin fuel
    let rest ← blockWithin fuel opener closer stops
    return stmt :: rest

/-- The arms of a conditional behind its first body. -/
def armsWithin : Nat → Token → Parser Arms
  | 0, _ => fail .outOfFuel
  | fuel + 1, opener => do
    if !(← take .elseWord) then return .done
    if !(← take .ifWord) then
      return .otherwise (← blockWithin fuel opener .endIf [.endIf])
    let also ← condition
    let body ← blockWithin fuel opener .endIf [.elseWord, .endIf]
    let rest ← armsWithin fuel opener
    return .elseIf also body rest

/-- The statements of a loop up to the condition that ends it. A condition with a loop
behind it belongs to that loop, which is one of the statements. -/
def roundsWithin : Nat → Token → Parser (List Stmt × Expr)
  | 0, _ => fail .outOfFuel
  | fuel + 1, opener => do
    match (← current).kind with
    | .whileWord =>
      let _ ← advance
      let condition ← expression
      if ← take .loopEnd then return ([], condition)
      let following ← current
      if following.kind ≠ .loopBegin then
        reject following.span (.unexpectedAny following.kind [.loopEnd, .loopBegin])
      let stmt ← afterCondition (blockWithin fuel) condition
      let (rest, last) ← roundsWithin fuel opener
      return (stmt :: rest, last)
    | .loopEnd => reject opener.span .loopWithoutCondition
    | kind =>
      if kind.endsBlock then reject opener.span (.unterminated opener.kind .loopEnd)
      let stmt ← statementWithin fuel
      let (rest, last) ← roundsWithin fuel opener
      return (stmt :: rest, last)

end

/-- A statement. -/
def statement : Parser Stmt := do
  statementWithin (2 * (← get).stream.remaining + 2)

/-! ## Programs -/

/-- The statements up to the end of the program. -/
def statementsWithin : Nat → Parser (List Stmt)
  | 0 => fail .outOfFuel
  | fuel + 1 => do
    let kind := (← current).kind
    if kind = .programEnd ∨ kind = .endOfInput then return []
    let stmt ← statement
    let rest ← statementsWithin fuel
    return stmt :: rest

/-- A program between its two words, with nothing behind it. -/
def program : Parser Program := do
  let _ ← expect .programBegin
  let body ← statementsWithin ((← get).stream.remaining + 1)
  let _ ← expect .programEnd
  let _ ← expect .endOfInput
  return body

/-- An expression with nothing behind it. -/
def expressionOnly : Parser Expr := do
  let expr ← expression
  let _ ← expect .endOfInput
  return expr

end Bukvar.Parsing
