import Bukvar.Listing.Basic

/-!
# The lines of a listing

A listing is written with its depth and the number of the counted loops around as state. Here the
lines of a statement are a function of these two numbers. Writing a statement puts its lines behind
what has been written, and leaves both numbers as they were. So the lines of a block are those of its
statements, and where a statement stands decides its depth and its counter, whatever has been written
before it.

* `writes_stmt`, `writes_arms`, `writes_block`: by induction over the tree.
* `generate_eq`: a listing is made of its lines.
* `blockLines_append`: the lines of a block are those of its statements in order.
-/

namespace Bukvar.Listing

open Layout (Line)

/-! ## The lines of statements -/

/-- The counter of a loop inside the given number of counted loops. -/
def counterName (enclosing : Nat) : String :=
  "_i" ++ Decimal.naturalText (enclosing + 1)

/-- Lines between braces. -/
def braced (depth : Nat) (body : List Line) : List Line :=
  ⟨depth, "\x7b"⟩ :: body ++ [⟨depth, "\x7d"⟩]

mutual

/-- The lines of a statement. -/
def stmtLines (intMain : Bool) (depth counters : Nat) : Stmt → List Line
  | .declare type name init => [⟨depth, declareText type name.name init⟩]
  | .assign expr => [⟨depth, exprText expr ++ ";"⟩]
  | .write expr => [⟨depth, "Console.WriteLine(" ++ exprText expr ++ ");"⟩]
  | .read target type => [⟨depth, readText target.name type⟩]
  | .giveBack value => [⟨depth, returnText intMain value⟩]
  | .branch condition body arms =>
    ⟨depth, "if (" ++ exprText condition ++ ")"⟩ ::
      braced depth (blockLines intMain (depth + 1) counters body) ++
      armsLines intMain depth counters arms
  | .counted count body =>
    ⟨depth, forText (counterName counters) (exprText count)⟩ ::
      braced depth (blockLines intMain (depth + 1) (counters + 1) body)
  | .loop condition body .pre =>
    ⟨depth, "while (" ++ exprText condition ++ ")"⟩ ::
      braced depth (blockLines intMain (depth + 1) counters body)
  | .loop condition body .post =>
    ⟨depth, "do"⟩ :: braced depth (blockLines intMain (depth + 1) counters body) ++
      [⟨depth, "while (" ++ exprText condition ++ ");"⟩]

/-- The lines of the arms of a conditional. A last arm without statements is left out. -/
def armsLines (intMain : Bool) (depth counters : Nat) : Arms → List Line
  | .done => []
  | .otherwise body =>
    if body.isEmpty then []
    else ⟨depth, "else"⟩ :: braced depth (blockLines intMain (depth + 1) counters body)
  | .elseIf condition body rest =>
    ⟨depth, "else if (" ++ exprText condition ++ ")"⟩ ::
      braced depth (blockLines intMain (depth + 1) counters body) ++
      armsLines intMain depth counters rest

/-- The lines of a block, without the braces around it. -/
def blockLines (intMain : Bool) (depth counters : Nat) : List Stmt → List Line
  | [] => []
  | stmt :: rest => stmtLines intMain depth counters stmt ++ blockLines intMain depth counters rest

end

theorem blockLines_append (intMain : Bool) (depth counters : Nat) (as bs : List Stmt) :
    blockLines intMain depth counters (as ++ bs) =
      blockLines intMain depth counters as ++ blockLines intMain depth counters bs := by
  induction as with
  | nil => simp [blockLines]
  | cons a as ih => simp [blockLines, ih]

/-- The return that is added where `Main` returns a number and the program does not end
with a return. -/
def closingReturn (program : Program) : List Line :=
  if returnsValue program && !program.getLast?.any isReturn then [⟨2, "return 0;"⟩] else []

/-- The lines inside `Main`. -/
def mainLines (program : Program) : List Line :=
  blockLines (returnsValue program) 2 0 program ++ closingReturn program

/-- The lines of a whole listing. -/
def lines (options : Options) (program : Program) : List Line :=
  [⟨0, "using System;"⟩, ⟨0, ""⟩, ⟨0, "namespace " ++ options.nameSpace ++ ";"⟩, ⟨0, ""⟩,
    ⟨0, "public class " ++ options.className⟩] ++
  braced 0 (⟨1, "public static " ++ mainType program ++ " Main()"⟩ ::
    braced 1 (mainLines program))

/-! ## Parts that write lines -/

/-- The part writes the lines that belong to the depth and to the loops of the sheet, and leaves
these as they were. -/
structure Writes (indent : String) (part : Writer) (ls : Nat → Nat → List Line) : Prop where
  text : ∀ s : Sheet, (s.after part).text = s.text ++ Layout.render indent (ls s.depth s.loops)
  depth : ∀ s : Sheet, (s.after part).depth = s.depth
  loops : ∀ s : Sheet, (s.after part).loops = s.loops

section

variable {indent : String} {part part' : Writer} {ls ls' : Nat → Nat → List Line}

theorem after_bind (s : Sheet) (part part' : Writer) :
    s.after (do part; part') = (s.after part).after part' := rfl

theorem writes_nothing : Writes indent (return) fun _ _ => [] :=
  ⟨fun _ => String.append_empty.symm, fun _ => rfl, fun _ => rfl⟩

theorem writes_line (content : String) :
    Writes indent (writeLine indent content) fun depth _ => [⟨depth, content⟩] := by
  refine ⟨fun s => ?_, fun _ => rfl, fun _ => rfl⟩
  rw [Layout.render_singleton]
  rfl

theorem writes_blank : Writes indent writeBlank fun _ _ => [⟨0, ""⟩] := by
  refine ⟨fun s => ?_, fun _ => rfl, fun _ => rfl⟩
  rw [Layout.render_singleton]
  rfl

theorem Writes.bind (h : Writes indent part ls) (h' : Writes indent part' ls') :
    Writes indent (do part; part') fun depth loops => ls depth loops ++ ls' depth loops := by
  constructor
  · intro s
    rw [after_bind, h'.text, h.text, h.depth, h.loops, Layout.render_append, String.append_assoc]
  · intro s
    rw [after_bind, h'.depth, h.depth]
  · intro s
    rw [after_bind, h'.loops, h.loops]

theorem Writes.deeper (h : Writes indent part ls) :
    Writes indent (deeper part) fun depth loops => ls (depth + 1) loops := by
  refine ⟨fun s => h.text _, fun s => ?_, fun s => h.loops _⟩
  change (Sheet.after { s with depth := s.depth + 1 } part).depth - 1 = s.depth
  rw [h.depth, Nat.add_sub_cancel]

theorem Writes.braced (h : Writes indent part ls) :
    Writes indent (writeBraced indent part) fun depth loops =>
      braced depth (ls (depth + 1) loops) :=
  (writes_line _).bind (h.deeper.bind (writes_line _))

/-- The number of a counted loop is one more than the number of the loops around it. -/
theorem writes_counting {loop : Nat → Writer} {numbered : Nat → Nat → Nat → List Line}
    (h : ∀ number, Writes indent (loop number) (numbered number)) :
    Writes indent (counting loop) fun depth loops => numbered (loops + 1) depth (loops + 1) := by
  refine ⟨fun s => (h _).text _, fun s => (h _).depth _, fun s => ?_⟩
  change (Sheet.after { s with loops := s.loops + 1 } (loop (s.loops + 1))).loops - 1 = s.loops
  rw [(h _).loops, Nat.add_sub_cancel]

end

/-! ## Statements -/

mutual

/-- A statement writes its lines, and behind it the depth and the loops around are those that they
were before it. -/
theorem writes_stmt (indent : String) (intMain : Bool) (s : Stmt) :
    Writes indent (writeStmt indent intMain s) fun depth loops =>
      stmtLines intMain depth loops s := by
  cases s with
  | branch condition body arms =>
    simp only [writeStmt, stmtLines]
    exact (writes_line _).bind
      ((writes_block indent intMain body).braced.bind (writes_arms indent intMain arms))
  | counted count body =>
    simp only [writeStmt, stmtLines]
    exact writes_counting fun number =>
      (writes_line (forText ("_i" ++ Decimal.naturalText number) (exprText count))).bind
        (writes_block indent intMain body).braced
  | loop condition body test =>
    cases test with
    | pre =>
      simp only [writeStmt, stmtLines]
      exact (writes_line _).bind (writes_block indent intMain body).braced
    | post =>
      simp only [writeStmt, stmtLines]
      exact (writes_line _).bind
        ((writes_block indent intMain body).braced.bind (writes_line _))
  | _ =>
    simp only [writeStmt, stmtLines]
    exact writes_line _

theorem writes_arms (indent : String) (intMain : Bool) (a : Arms) :
    Writes indent (writeArms indent intMain a) fun depth loops =>
      armsLines intMain depth loops a := by
  cases a with
  | done =>
    simp only [writeArms, armsLines]
    exact writes_nothing
  | otherwise body =>
    simp only [writeArms, armsLines]
    cases body with
    | nil => exact writes_nothing
    | cons s rest =>
      exact (writes_line _).bind (writes_block indent intMain (s :: rest)).braced
  | elseIf condition body rest =>
    simp only [writeArms, armsLines]
    exact (writes_line _).bind
      ((writes_block indent intMain body).braced.bind (writes_arms indent intMain rest))

theorem writes_block (indent : String) (intMain : Bool) (b : List Stmt) :
    Writes indent (writeBlock indent intMain b) fun depth loops =>
      blockLines intMain depth loops b := by
  cases b with
  | nil =>
    simp only [writeBlock, blockLines]
    exact writes_nothing
  | cons s rest =>
    simp only [writeBlock, blockLines]
    exact (writes_stmt indent intMain s).bind (writes_block indent intMain rest)

end

/-! ## Whole listings -/

theorem generate_eq (options : Options) (p : Program) :
    generate options p = Layout.render options.indent (lines options p) := by
  have hclosing : Writes options.indent
      (if returnsValue p && !p.getLast?.any isReturn then
        writeLine options.indent "return 0;" else return)
      fun depth _ =>
        if returnsValue p && !p.getLast?.any isReturn then [⟨depth, "return 0;"⟩] else [] := by
    split
    · exact writes_line _
    · exact writes_nothing
  have hbody := (writes_block options.indent (returnsValue p) p).bind hclosing
  have hmain := (writes_line ("public static " ++ mainType p ++ " Main()")).bind hbody.braced
  have hprogram := (writes_line "using System;").bind (writes_blank.bind
    ((writes_line ("namespace " ++ options.nameSpace ++ ";")).bind (writes_blank.bind
      ((writes_line ("public class " ++ options.className)).bind hmain.braced))))
  exact (hprogram.text .blank).trans String.empty_append

end Bukvar.Listing
