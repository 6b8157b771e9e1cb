import Bukvar.Text.Blank
import Bukvar.Text.Utf8
import Bukvar.Token.Basic
import Bukvar.Token.Rule

/-!
# Splitting a source into units

A quoted string that is closed on its own line is one unit. Otherwise blanks separate units,
a semicolon or a parenthesis is a unit of its own wherever it stands, and a quote starts a
new one. Nothing is refused: what fits no other description is a word.

* `append_cutUnit`: a cut loses no character.
* `lexemes_blank`, `lexemes_unit`: how splitting goes on behind a blank and behind a unit.
-/

namespace Bukvar.Token

/-- The characters that always are a unit of their own. -/
def isStandalone (c : Char) : Bool :=
  c = ';' || c = '(' || c = ')'

/-- The characters at which a word ends. -/
def endsWord (c : Char) : Bool :=
  Text.isBlank c || isStandalone c || c = '"'

/-- The characters at which the search for a closing quote ends. -/
def endsQuote (c : Char) : Bool :=
  c = '"' || c = '\n'

/-- A text divided in two. -/
structure Cut where
  taken : List Char
  rest : List Char

/-- Behind an opening quote: the text up to and with the closing quote on the same line. -/
def closeQuote? (cs : List Char) : Option Cut :=
  match cs.dropWhile (!endsQuote ·) with
  | '"' :: rest => some ⟨cs.takeWhile (!endsQuote ·) ++ ['"'], rest⟩
  | _ => none

/-- Behind the first character of a word: the rest of the word. -/
def cutWord (cs : List Char) : Cut :=
  ⟨cs.takeWhile (!endsWord ·), cs.dropWhile (!endsWord ·)⟩

/-- Behind the first character of a unit: the rest of the unit. -/
def cutUnit (first : Char) (cs : List Char) : Cut :=
  if isStandalone first then ⟨[], cs⟩
  else if first = '"' then (closeQuote? cs).getD (cutWord cs)
  else cutWord cs

theorem append_closeQuote? {cs : List Char} {cut : Cut} (h : closeQuote? cs = some cut) :
    cut.taken ++ cut.rest = cs := by
  rw [closeQuote?] at h
  split at h
  next rest heq =>
    cases h
    have := List.takeWhile_append_dropWhile (p := (!endsQuote ·)) (l := cs)
    rw [heq] at this
    simpa using this
  next => cases h

theorem append_cutWord (cs : List Char) : (cutWord cs).taken ++ (cutWord cs).rest = cs :=
  List.takeWhile_append_dropWhile

theorem append_cutUnit (first : Char) (cs : List Char) :
    (cutUnit first cs).taken ++ (cutUnit first cs).rest = cs := by
  rw [cutUnit]
  split
  · rfl
  · split
    · cases h : closeQuote? cs with
      | none => exact append_cutWord cs
      | some cut => exact append_closeQuote? h
    · exact append_cutWord cs

theorem length_rest_cutUnit (first : Char) (cs : List Char) :
    (cutUnit first cs).rest.length ≤ cs.length := by
  have h := congrArg List.length (append_cutUnit first cs)
  rw [List.length_append] at h
  omega

/-- A unit of a source and the byte offset where it starts. -/
structure Lexeme where
  offset : Nat
  text : List Char
deriving DecidableEq

/-- The units of a text that starts at a byte offset. -/
def lexemes (offset : Nat) : List Char → List Lexeme
  | [] => []
  | c :: cs =>
    if Text.isBlank c then lexemes (offset + c.utf8Size) cs
    else
      ⟨offset, c :: (cutUnit c cs).taken⟩ ::
        lexemes (offset + Text.byteLength (c :: (cutUnit c cs).taken)) (cutUnit c cs).rest
termination_by cs => cs.length
decreasing_by
  · simp
  · have := length_rest_cutUnit c cs
    simp only [List.length_cons]
    omega

@[simp] theorem lexemes_nil (offset : Nat) : lexemes offset [] = [] := by
  rw [lexemes]

theorem lexemes_blank (offset : Nat) {c : Char} (cs : List Char) (h : Text.isBlank c = true) :
    lexemes offset (c :: cs) = lexemes (offset + c.utf8Size) cs := by
  rw [lexemes, if_pos h]

theorem lexemes_unit (offset : Nat) {c : Char} (cs : List Char) (h : Text.isBlank c = false) :
    lexemes offset (c :: cs) =
      ⟨offset, c :: (cutUnit c cs).taken⟩ ::
        lexemes (offset + Text.byteLength (c :: (cutUnit c cs).taken)) (cutUnit c cs).rest := by
  rw [lexemes, if_neg (by simp [h])]

/-- The token of a unit. -/
def Lexeme.toToken (l : Lexeme) : Except Fault Token := do
  let span ← Span.ofBounds l.offset (l.offset + Text.byteLength l.text)
  let text := String.ofList l.text
  return ⟨classify text, text, span⟩

/-- The tokens of a source, and the mark behind them. -/
def tokenize (source : String) : Except Fault (List Token) := do
  let tokens ← (lexemes 0 source.toList).mapM Lexeme.toToken
  return tokens ++ [endOfInput (Text.byteLength source.toList)]

end Bukvar.Token
