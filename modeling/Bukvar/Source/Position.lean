import Bukvar.Fault
import Bukvar.Text.Utf8

/-!
# Lines and columns

Messages for people give a place as a line and a column, both counted from one and the
column in characters.

* `ofOffset_append`: the position behind a first part of a source depends on that part only.
* `after_newline`, `after_other`: how one more character moves the position.
-/

namespace Bukvar

/-- A place in a text as people count it. -/
structure Position where
  line : Nat
  column : Nat
deriving DecidableEq

namespace Position

/-- Where a text starts. -/
def start : Position :=
  ⟨1, 1⟩

/-- The position behind one more character. -/
def step (p : Position) (c : Char) : Position :=
  if c = '\n' then ⟨p.line + 1, 1⟩ else ⟨p.line, p.column + 1⟩

/-- The position behind a text. -/
def after (before : List Char) : Position :=
  before.foldl step start

/-- The position of a byte offset; an offset beyond the end counts as the end. -/
def ofOffset (source : String) (offset : Nat) : Except Fault Position :=
  match Text.takeBytes? source.toList offset with
  | some before => .ok (after before)
  | none => .error .insideCharacter

theorem after_newline (cs : List Char) : after (cs ++ ['\n']) = ⟨(after cs).line + 1, 1⟩ := by
  simp [after, step]

theorem after_other (cs : List Char) {c : Char} (h : c ≠ '\n') :
    after (cs ++ [c]) = ⟨(after cs).line, (after cs).column + 1⟩ := by
  simp [after, step, h]

theorem ofOffset_append (source : String) (before rest : List Char)
    (h : source.toList = before ++ rest) :
    ofOffset source (Text.byteLength before) = .ok (after before) := by
  rw [ofOffset, h, Text.takeBytes?_append]

end Position

end Bukvar
