import Bukvar.Token.Lexeme

/-!
# Token buffers

A buffer holds tokens and the place up to which they have been read. It can be empty, be
filled from a source, grow by single tokens and be cleared.
-/

namespace Bukvar.Token

/-- Tokens and how many of them have been passed. -/
structure Buffer where
  tokens : Array Token
  cursor : Nat
deriving DecidableEq

namespace Buffer

/-- The buffer without tokens. -/
def empty : Buffer :=
  ⟨#[], 0⟩

/-- Number of tokens. -/
def size (b : Buffer) : Nat :=
  b.tokens.size

/-- Whether there are no tokens. -/
def isEmpty (b : Buffer) : Bool :=
  b.tokens.isEmpty

/-- One more token at the end. -/
def push (b : Buffer) (token : Token) : Buffer :=
  { b with tokens := b.tokens.push token }

/-- Drops all tokens and goes back to the start. -/
def clear (_ : Buffer) : Buffer :=
  empty

/-- Fills a buffer without tokens from a source. -/
def fill (b : Buffer) (source : String) : Except Fault Buffer :=
  if b.isEmpty then (tokenize source).map fun tokens => { b with tokens := tokens.toArray }
  else .error .bufferInUse

/-- A fresh buffer with the tokens of a source. -/
def ofSource (source : String) : Except Fault Buffer :=
  empty.fill source

/-- A buffer as text. -/
def shown (b : Buffer) : String :=
  "TokenStream \x7b cursor: " ++ Decimal.naturalText b.cursor ++ ", tokens: [" ++
    ", ".intercalate (b.tokens.toList.map Token.shown) ++ "] \x7d"

end Buffer

end Bukvar.Token
