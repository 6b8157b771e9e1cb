import Bukvar.Source.Span
import Bukvar.Text.Quoted
import Bukvar.Token.Kind

/-!
# Tokens

A token is a unit of a source with its kind and its place. Two tokens are alike when they
differ at most in their place.
-/

namespace Bukvar

/-- A unit of a source. -/
structure Token where
  kind : Token.Kind
  text : String
  span : Span
deriving DecidableEq

namespace Token

/-- The mark behind the last unit of a source of the given length in bytes. -/
def endOfInput (length : Nat) : Token :=
  ⟨.endOfInput, "", .empty length⟩

/-- Whether two tokens agree in kind and text, wherever they stand. -/
def alike (a b : Token) : Bool :=
  a.kind = b.kind && a.text = b.text

/-- A token as text. -/
def shown (t : Token) : String :=
  "Token(" ++ t.kind.label ++ ", " ++ Text.quoted t.text ++ ", " ++ t.span.text ++ ")"

end Token

end Bukvar
