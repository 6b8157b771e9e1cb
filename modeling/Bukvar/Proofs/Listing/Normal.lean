import Bukvar.Proofs.Grammar.Bare
import Bukvar.Proofs.Listing.Lines
import Bukvar.Proofs.Listing.Nodes

/-!
# Normal forms of programs

A listing does not show everything about a program. It has no places, it shows the text of a leaf
and not its kind, and it leaves out a last arm without statements. Where `Main` returns a number,
a bare return is written as a return of zero, and a return of zero stands at the end unless the
program ends with a return. `normal` carries these changes out on the program.

* `normal_eq_append`, `missingReturn_eq`: the search for a return with a value, and the test of the
  last statement, find what the normal form is defined by.
* `generate_normal`: a program and its normal form have the same listing.
* `generate_bareBlock`: a listing does not depend on the places in its program.
-/

namespace Bukvar.Listing

open Layout (Line)

/-! ## Definitions -/

/-- The variable whose name is the given text. -/
def textLeaf (text : String) : Expr :=
  .ident ⟨text, .empty 0⟩ (.empty 0)

/-- The expression without places, and with the text that is written for it in the place of every
leaf. -/
def written : Expr → Expr
  | .binary op lhs rhs _ => .binary op (written lhs) (written rhs) (.empty 0)
  | e => textLeaf (exprText e)

/-- The return that is written for a bare one where `Main` returns a number. -/
def returnZero : Stmt :=
  .giveBack (some (textLeaf "0"))

mutual

/-- The normal form of a statement. -/
def normalStmt (intMain : Bool) : Stmt → Stmt
  | .declare type name init => .declare type name.bare (init.map written)
  | .assign expr => .assign (written expr)
  | .write expr => .write (written expr)
  | .read target type => .read target.bare type
  | .giveBack (some value) => .giveBack (some (written value))
  | .giveBack none => if intMain then returnZero else .giveBack none
  | .branch condition body arms =>
    .branch (written condition) (normalBlock intMain body) (normalArms intMain arms)
  | .counted count body => .counted (written count) (normalBlock intMain body)
  | .loop condition body test => .loop (written condition) (normalBlock intMain body) test

/-- The normal form of the arms of a conditional. -/
def normalArms (intMain : Bool) : Arms → Arms
  | .done => .done
  | .otherwise body => if body.isEmpty then .done else .otherwise (normalBlock intMain body)
  | .elseIf condition body rest =>
    .elseIf (written condition) (normalBlock intMain body) (normalArms intMain rest)

/-- The normal forms of the statements of a block. -/
def normalBlock (intMain : Bool) : List Stmt → List Stmt
  | [] => []
  | stmt :: rest => normalStmt intMain stmt :: normalBlock intMain rest

end

/-- The return that is missing at the end of a program, where some value is returned. -/
def missingReturn (program : Program) : Program :=
  if (∃ n ∈ nodes program, n.GivesValue) ∧ ¬∃ value, program.getLast? = some (.giveBack value)
  then [returnZero] else []

/-- The normal form of a program. -/
def normal (program : Program) : Program :=
  normalBlock (decide (∃ n ∈ nodes program, n.GivesValue)) program ++ missingReturn program

/-- What is missing is what the listing adds. -/
theorem missingReturn_eq (p : Program) :
    missingReturn p = if returnsValue p && !p.getLast?.any isReturn then [returnZero] else [] := by
  have hmissing : ((∃ n ∈ nodes p, n.GivesValue) ∧
      ¬∃ value, p.getLast? = some (.giveBack value)) ↔
        (returnsValue p && !p.getLast?.any isReturn) = true := by
    rw [Bool.and_eq_true, Bool.not_eq_true', ← Bool.not_eq_true, any_isReturn_iff,
      returnsValue_iff [] p, nodes]
  exact ite_congr (propext hmissing) (fun _ => rfl) fun _ => rfl

theorem normal_eq_append (p : Program) :
    normal p = normalBlock (returnsValue p) p ++ missingReturn p := by
  rw [normal, decide_givesValue]

/-! ## Listings of normal forms -/

@[simp] theorem isAssignment_written (e : Expr) : isAssignment (written e) = isAssignment e := by
  cases e with
  | binary op lhs rhs span => cases op <;> rfl
  | _ => rfl

@[simp] theorem exprText_written (e : Expr) : exprText (written e) = exprText e := by
  induction e with
  | binary op lhs rhs span ihl ihr =>
    cases op <;> simp only [written, exprText, operandText, isAssignment_written, ihl, ihr]
  | _ => rfl

theorem declareText_written (type : VarType) (name : String) (init : Option Expr) :
    declareText type name (init.map written) = declareText type name init := by
  cases init with
  | none => rfl
  | some value => simp only [Option.map_some, declareText, exprText_written]

theorem isEmpty_normalBlock (intMain : Bool) (b : List Stmt) :
    (normalBlock intMain b).isEmpty = b.isEmpty := by
  cases b <;> rfl

mutual

theorem stmtLines_normalStmt (intMain : Bool) (depth counters : Nat) (s : Stmt) :
    stmtLines intMain depth counters (normalStmt intMain s) =
      stmtLines intMain depth counters s := by
  cases s with
  | declare type name init =>
    simp only [normalStmt, stmtLines, Ident.bare, declareText_written]
  | assign expr => simp only [normalStmt, stmtLines, exprText_written]
  | write expr => simp only [normalStmt, stmtLines, exprText_written]
  | read target type => simp only [normalStmt, stmtLines, Ident.bare]
  | giveBack value =>
    cases value with
    | some value => simp only [normalStmt, stmtLines, returnText, exprText_written]
    | none => cases intMain <;> rfl
  | branch condition body arms =>
    simp only [normalStmt, stmtLines, exprText_written, blockLines_normalBlock _ _ _ body,
      armsLines_normalArms _ _ _ arms]
  | counted count body =>
    simp only [normalStmt, stmtLines, exprText_written, blockLines_normalBlock _ _ _ body]
  | loop condition body test =>
    cases test <;>
      simp only [normalStmt, stmtLines, exprText_written, blockLines_normalBlock _ _ _ body]

theorem armsLines_normalArms (intMain : Bool) (depth counters : Nat) (a : Arms) :
    armsLines intMain depth counters (normalArms intMain a) =
      armsLines intMain depth counters a := by
  cases a with
  | done => simp only [normalArms]
  | otherwise body =>
    simp only [normalArms, armsLines]
    cases h : body.isEmpty with
    | true => simp only [if_true, armsLines]
    | false =>
      simp only [Bool.false_eq_true, if_false, armsLines, isEmpty_normalBlock, h,
        blockLines_normalBlock _ _ _ body]
  | elseIf condition body rest =>
    simp only [normalArms, armsLines, exprText_written, blockLines_normalBlock _ _ _ body,
      armsLines_normalArms _ _ _ rest]

theorem blockLines_normalBlock (intMain : Bool) (depth counters : Nat) (b : List Stmt) :
    blockLines intMain depth counters (normalBlock intMain b) =
      blockLines intMain depth counters b := by
  cases b with
  | nil => simp only [normalBlock]
  | cons s rest =>
    simp only [normalBlock, blockLines, stmtLines_normalStmt _ _ _ s,
      blockLines_normalBlock _ _ _ rest]

end

mutual

/-- A bare return gets a value only where another one has one. -/
theorem stmtReturnsValue_normalStmt (s : Stmt) :
    stmtReturnsValue (normalStmt false s) = stmtReturnsValue s ∧
      (stmtReturnsValue s = true → stmtReturnsValue (normalStmt true s) = true) := by
  cases s with
  | giveBack value => cases value <;> simp [normalStmt, stmtReturnsValue]
  | branch condition body arms =>
    obtain ⟨hb, hb'⟩ := returnsValue_normalBlock body
    obtain ⟨ha, ha'⟩ := armsReturnValue_normalArms arms
    simp only [normalStmt, stmtReturnsValue, hb, ha, Bool.or_eq_true]
    exact ⟨trivial, Or.imp hb' ha'⟩
  | counted count body =>
    obtain ⟨hb, hb'⟩ := returnsValue_normalBlock body
    simp only [normalStmt, stmtReturnsValue, hb]
    exact ⟨trivial, hb'⟩
  | loop condition body test =>
    obtain ⟨hb, hb'⟩ := returnsValue_normalBlock body
    simp only [normalStmt, stmtReturnsValue, hb]
    exact ⟨trivial, hb'⟩
  | _ => simp only [normalStmt, stmtReturnsValue]; simp

theorem armsReturnValue_normalArms (a : Arms) :
    armsReturnValue (normalArms false a) = armsReturnValue a ∧
      (armsReturnValue a = true → armsReturnValue (normalArms true a) = true) := by
  cases a with
  | done => simp [normalArms, armsReturnValue]
  | otherwise body =>
    obtain ⟨hb, hb'⟩ := returnsValue_normalBlock body
    cases body with
    | nil => simp [normalArms, armsReturnValue, returnsValue]
    | cons s rest =>
      simp only [normalArms, armsReturnValue, List.isEmpty_cons, Bool.false_eq_true, if_false, hb]
      exact ⟨trivial, hb'⟩
  | elseIf condition body rest =>
    obtain ⟨hb, hb'⟩ := returnsValue_normalBlock body
    obtain ⟨ha, ha'⟩ := armsReturnValue_normalArms rest
    simp only [normalArms, armsReturnValue, hb, ha, Bool.or_eq_true]
    exact ⟨trivial, Or.imp hb' ha'⟩

theorem returnsValue_normalBlock (b : List Stmt) :
    returnsValue (normalBlock false b) = returnsValue b ∧
      (returnsValue b = true → returnsValue (normalBlock true b) = true) := by
  cases b with
  | nil => simp [normalBlock, returnsValue]
  | cons s rest =>
    obtain ⟨hs, hs'⟩ := stmtReturnsValue_normalStmt s
    obtain ⟨hr, hr'⟩ := returnsValue_normalBlock rest
    simp only [normalBlock, returnsValue, hs, hr, Bool.or_eq_true]
    exact ⟨trivial, Or.imp hs' hr'⟩

end

theorem returnsValue_normal (p : Program) : returnsValue (normal p) = returnsValue p := by
  obtain ⟨hfalse, htrue⟩ := returnsValue_normalBlock p
  rw [normal_eq_append, returnsValue_append]
  cases hp : returnsValue p with
  | true => rw [htrue hp, Bool.true_or]
  | false =>
    have hmissing : missingReturn p = [] := by
      rw [missingReturn_eq, hp]
      rfl
    rw [hfalse, hp, hmissing]
    rfl

theorem isReturn_normalStmt (intMain : Bool) (s : Stmt) :
    isReturn (normalStmt intMain s) = isReturn s := by
  cases s with
  | giveBack value => cases value <;> cases intMain <;> rfl
  | _ => rfl

theorem normalBlock_eq_map (intMain : Bool) (b : List Stmt) :
    normalBlock intMain b = b.map (normalStmt intMain) := by
  induction b with
  | nil => rfl
  | cons s rest ih => rw [normalBlock, List.map_cons, ih]

theorem endsWithReturn_normalBlock (intMain : Bool) (b : List Stmt) :
    (normalBlock intMain b).getLast?.any isReturn = b.getLast?.any isReturn := by
  rw [normalBlock_eq_map, List.getLast?_map, Option.any_map]
  simp only [isReturn_normalStmt]

/-- The normal form of a program that returns a value ends with a return. -/
theorem closingReturn_normal (p : Program) : closingReturn (normal p) = [] := by
  rw [closingReturn, returnsValue_normal]
  apply if_neg
  rw [Bool.and_eq_true, Bool.not_eq_true']
  rintro ⟨hvalue, hlast⟩
  rw [normal_eq_append] at hlast
  cases hreturn : p.getLast?.any isReturn with
  | false =>
    have hmissing : missingReturn p = [returnZero] := by
      rw [missingReturn_eq, hvalue, hreturn]
      rfl
    rw [hmissing, List.getLast?_concat] at hlast
    cases hlast
  | true =>
    have hmissing : missingReturn p = [] := by
      rw [missingReturn_eq, hvalue, hreturn]
      rfl
    rw [hmissing, List.append_nil, endsWithReturn_normalBlock, hreturn] at hlast
    cases hlast

theorem blockLines_missingReturn (p : Program) :
    blockLines (returnsValue p) 2 0 (missingReturn p) = closingReturn p := by
  rw [missingReturn_eq, closingReturn]
  split <;> rfl

theorem mainLines_normal (p : Program) : mainLines (normal p) = mainLines p := by
  rw [mainLines, closingReturn_normal, returnsValue_normal, normal_eq_append, blockLines_append,
    blockLines_normalBlock, blockLines_missingReturn, List.append_nil, mainLines]

/-- A listing shows the normal form of its program. -/
theorem generate_normal (options : Options) (p : Program) :
    generate options (normal p) = generate options p := by
  rw [generate_eq, generate_eq, lines, lines, mainLines_normal, mainType, mainType, returnsValue_normal]

/-! ## Places -/

theorem written_bare (e : Expr) : written e.bare = written e := by
  induction e with
  | binary op lhs rhs span ihl ihr => rw [Expr.bare, written, written, ihl, ihr]
  | _ => rfl

theorem map_written_bare (value : Option Expr) :
    (value.map Expr.bare).map written = value.map written := by
  cases value with
  | none => rfl
  | some e => rw [Option.map_some, Option.map_some, Option.map_some, written_bare]

theorem isEmpty_bareBlock (b : List Stmt) : (bareBlock b).isEmpty = b.isEmpty := by
  cases b <;> rfl

mutual

theorem normalStmt_bare (intMain : Bool) (s : Stmt) :
    normalStmt intMain s.bare = normalStmt intMain s := by
  cases s with
  | declare type name init => simp only [Stmt.bare, normalStmt, Ident.bare, map_written_bare]
  | assign expr => simp only [Stmt.bare, normalStmt, written_bare]
  | write expr => simp only [Stmt.bare, normalStmt, written_bare]
  | read target type => simp only [Stmt.bare, normalStmt, Ident.bare]
  | giveBack value =>
    cases value with
    | some value => simp only [Stmt.bare, Option.map_some, normalStmt, written_bare]
    | none => simp only [Stmt.bare, Option.map_none]
  | branch condition body arms =>
    simp only [Stmt.bare, normalStmt, written_bare, normalBlock_bareBlock _ body,
      normalArms_bare _ arms]
  | counted count body =>
    simp only [Stmt.bare, normalStmt, written_bare, normalBlock_bareBlock _ body]
  | loop condition body test =>
    simp only [Stmt.bare, normalStmt, written_bare, normalBlock_bareBlock _ body]

theorem normalArms_bare (intMain : Bool) (a : Arms) :
    normalArms intMain a.bare = normalArms intMain a := by
  cases a with
  | done => simp only [Arms.bare]
  | otherwise body =>
    simp only [Arms.bare, normalArms, isEmpty_bareBlock, normalBlock_bareBlock _ body]
  | elseIf condition body rest =>
    simp only [Arms.bare, normalArms, written_bare, normalBlock_bareBlock _ body,
      normalArms_bare _ rest]

theorem normalBlock_bareBlock (intMain : Bool) (b : List Stmt) :
    normalBlock intMain (bareBlock b) = normalBlock intMain b := by
  cases b with
  | nil => simp only [bareBlock]
  | cons s rest =>
    simp only [bareBlock, normalBlock, normalStmt_bare _ s, normalBlock_bareBlock _ rest]

end

theorem returnsValue_bareBlock (p : Program) : returnsValue (bareBlock p) = returnsValue p := by
  rw [← (returnsValue_normalBlock (bareBlock p)).1, normalBlock_bareBlock,
    (returnsValue_normalBlock p).1]

theorem normal_bareBlock (p : Program) : normal (bareBlock p) = normal p := by
  have hlast : (bareBlock p).getLast?.any isReturn = p.getLast?.any isReturn := by
    rw [← endsWithReturn_normalBlock false, normalBlock_bareBlock, endsWithReturn_normalBlock]
  rw [normal_eq_append, normal_eq_append, missingReturn_eq, missingReturn_eq,
    returnsValue_bareBlock, normalBlock_bareBlock, hlast]

/-- A listing shows nothing of the places in its program. -/
theorem generate_bareBlock (options : Options) (p : Program) :
    generate options (bareBlock p) = generate options p := by
  rw [← generate_normal, normal_bareBlock, generate_normal]

end Bukvar.Listing
