/-!
# Indented text

Both printers produce lines with a depth. What one step of depth looks like is chosen when
the lines are put together, so the lines themselves do not depend on it.

* `render_append`: putting lines together goes line by line.
-/

namespace Bukvar.Layout

/-- A line without its indentation. -/
structure Line where
  depth : Nat
  content : String
deriving DecidableEq

/-- A line with its indentation and the newline behind it. -/
def Line.render (indent : String) (line : Line) : String :=
  String.join (List.replicate line.depth indent) ++ line.content ++ "\n"

/-- Lines put together, each with one `indent` for every step of depth. -/
def render (indent : String) (lines : List Line) : String :=
  String.join (lines.map (Line.render indent))

@[simp] theorem render_nil (indent : String) : render indent [] = "" := rfl

theorem render_singleton (indent : String) (line : Line) :
    render indent [line] = line.render indent :=
  String.empty_append

theorem render_append (indent : String) (as bs : List Line) :
    render indent (as ++ bs) = render indent as ++ render indent bs := by
  simp [render, String.join_append]

end Bukvar.Layout
