import Bukvar.Text.CodePoints

/-!
# Blank characters

The characters with the Unicode property `White_Space`: they separate the units of a
source and belong to none.

* `isBlank_of_isWhitespace`: the ASCII blanks of the core library are among them.
-/

namespace Bukvar.Text

/-- The code points with the property `White_Space`. -/
def blanks : List CodePoints :=
  [⟨0x9, 0xd⟩, ⟨0x20, 0x20⟩, ⟨0x85, 0x85⟩, ⟨0xa0, 0xa0⟩, ⟨0x1680, 0x1680⟩, ⟨0x2000, 0x200a⟩,
    ⟨0x2028, 0x2029⟩, ⟨0x202f, 0x202f⟩, ⟨0x205f, 0x205f⟩, ⟨0x3000, 0x3000⟩]

/-- Whether the character only separates units. -/
def isBlank (c : Char) : Bool :=
  CodePoints.covers blanks c.toNat

theorem isBlank_of_isWhitespace {c : Char} (h : c.isWhitespace = true) : isBlank c = true := by
  simp only [Char.isWhitespace, Bool.or_eq_true, decide_eq_true_eq] at h
  rcases h with ((rfl | rfl) | rfl) | rfl <;> decide

end Bukvar.Text
