import Bukvar.Text.Unprinted
import Bukvar.Text.Extending

/-!
# Quoted text

A text is shown between double quotes with every character visible: quote and backslash
take a backslash, the four common controls have a letter, and a character that has no
glyph or is drawn onto its neighbour is written by its code point in braces.
-/

namespace Bukvar.Text

/-- The characters of a natural number in base sixteen, in lower case. -/
def hexadecimal (n : Nat) : List Char :=
  Nat.toDigits 16 n

/-- How one character is written between quotes. -/
def escaped (c : Char) : List Char :=
  if c = '"' then ['\\', '"']
  else if c = '\\' then ['\\', '\\']
  else if c = '\n' then ['\\', 'n']
  else if c = '\t' then ['\\', 't']
  else if c = '\r' then ['\\', 'r']
  else if c = '\x00' then ['\\', '0']
  else if isUnprinted c || isExtending c then
    ['\\', 'u', '\x7b'] ++ hexadecimal c.toNat ++ ['\x7d']
  else [c]

/-- The text between double quotes, with every character visible. -/
def quoted (s : String) : String :=
  String.ofList ('"' :: s.toList.flatMap escaped ++ ['"'])

end Bukvar.Text
