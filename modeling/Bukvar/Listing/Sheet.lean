import Bukvar.Layout

/-!
# Writing a listing

A listing is written from the top to the bottom. While it is written, a sheet holds its text and
where in it the next line belongs: how deep it is, and in how many counted loops. `deeper` and
`counting` change this for the length of a part.
-/

namespace Bukvar.Listing

/-- A listing while it is written. -/
structure Sheet where
  text : String
  /-- The depth of the next line. -/
  depth : Nat
  /-- The number of counted loops around the next line. -/
  loops : Nat

/-- What writes a part of a listing. -/
abbrev Writer := StateM Sheet Unit

namespace Sheet

/-- The sheet on which nothing has been written. -/
def blank : Sheet :=
  ⟨"", 0, 0⟩

/-- The sheet with a part behind what has been written. -/
def after (s : Sheet) (part : Writer) : Sheet :=
  (part.run s).2

end Sheet

/-- Writes a line. -/
def writeLine (indent content : String) : Writer :=
  modify fun s => { s with text := s.text ++ Layout.Line.render indent ⟨s.depth, content⟩ }

/-- Writes a line with nothing on it. -/
def writeBlank : Writer :=
  modify fun s => { s with text := s.text ++ "\n" }

/-- Writes a part one step deeper. -/
def deeper (part : Writer) : Writer := do
  modify fun s => { s with depth := s.depth + 1 }
  part
  modify fun s => { s with depth := s.depth - 1 }

/-- Writes a part between braces. -/
def writeBraced (indent : String) (part : Writer) : Writer := do
  writeLine indent "\x7b"
  deeper part
  writeLine indent "\x7d"

/-- Writes a counted loop, which is given its number among the loops around. -/
def counting (loop : Nat → Writer) : Writer := do
  modify fun s => { s with loops := s.loops + 1 }
  loop (← get).loops
  modify fun s => { s with loops := s.loops - 1 }

end Bukvar.Listing
