import Bukvar.Proofs.Outline.Nodes

/-!
# The lines of an outline show its tree

Trees with the same lines differ at most in places that no line has. An expression has as many
parts as its first line says, so it ends where the last of them ends. All other parts end where a
line comes that is not deep enough to belong to them.

* `exprLines_unique`: expressions.
* `stmtLines_unique`, `armsLines_unique`, `blockLines_unique`: statements, arms and blocks.
-/

namespace Bukvar.Outline

open Layout (Line Closes closes_cons)

/-! ## Expressions -/

/-- An expression without parts is determined by its first line. -/
theorem shown_leaf {e e' : Expr} (he : e.Legible Unspaced) (he' : e'.Legible Unspaced)
    (hbinary : exprForm e ≠ .binary) (hform : exprForm e = exprForm e')
    (hvalue : valueText e = valueText e') (hspan : e.span = e'.span) : e.shown = e'.shown := by
  cases e with
  | binary => exact absurd rfl hbinary
  | ident id span =>
    cases e' with
    | ident id' span' =>
      have hname : id.name = id'.name := hvalue
      cases show span = span' from hspan
      rw [Expr.shown, Expr.shown, Ident.bare, Ident.bare, hname]
    | _ => cases hform
  | integer value span =>
    cases e' with
    | integer value' span' =>
      have hread := congrArg Decimal.integerOf hvalue
      simp only [valueText, Decimal.integerOf_integerText] at hread
      cases show span = span' from hspan
      rw [hread]
    | _ => cases hform
  | double value span =>
    cases e' with
    | double value' span' =>
      have hread := congrArg Decimal.doubleOf hvalue
      simp only [valueText, Decimal.doubleOf_text he, Decimal.doubleOf_text he'] at hread
      cases show span = span' from hspan
      rw [hread]
    | _ => cases hform
  | string value span =>
    cases e' with
    | string value' span' =>
      have hquoted : Text.quoted value = Text.quoted value' := hvalue
      obtain ⟨rfl, -⟩ := @Text.quoted_unique value value' [] [] (by rw [hquoted])
      cases show span = span' from hspan
      rfl
    | _ => cases hform

/-- Expressions with the same lines agree in what their first lines show. -/
theorem split_exprLines {e e' : Expr} (he : e.Legible Unspaced) (he' : e'.Legible Unspaced)
    {depth : Nat} {r r' : List Line} (h : exprLines depth e ++ r = exprLines depth e' ++ r') :
    exprForm e = exprForm e' ∧ valueText e = valueText e' ∧ e.span = e'.span ∧
      exprTail depth e ++ r = exprTail depth e' ++ r' := by
  rw [exprLines_eq, exprLines_eq, List.cons_append, List.cons_append] at h
  obtain ⟨hline, htail⟩ := List.cons.inj h
  obtain ⟨hform, hrest⟩ := Form.unique (spaced_exprRest e) (spaced_exprRest e')
    (Line.mk.inj hline).2
  obtain ⟨hvalue, hspan⟩ := exprRest_unique he he' hform hrest
  exact ⟨hform, hvalue, hspan, htail⟩

/-- The lines of an expression show it and where it ends. -/
theorem exprLines_unique {e e' : Expr} (he : e.Legible Unspaced) (he' : e'.Legible Unspaced)
    {depth : Nat} {r r' : List Line} (h : exprLines depth e ++ r = exprLines depth e' ++ r') :
    e.shown = e'.shown ∧ r = r' := by
  -- what follows is general, since the second operand follows the first one
  induction e generalizing e' depth r r' with
  | binary op lhs rhs span ihl ihr =>
    obtain ⟨hform, hvalue, hspan, htail⟩ := split_exprLines he he' h
    cases e' with
    | binary op' lhs' rhs' span' =>
      simp only [exprTail, List.append_assoc] at htail
      obtain ⟨hlhs, hmiddle⟩ := ihl he.1 he'.1 htail
      obtain ⟨hrhs, hend⟩ := ihr he.2.1 he'.2.1 hmiddle
      cases show span = span' from hspan
      refine ⟨?_, hend⟩
      rw [Expr.shown, Expr.shown, Operator.label_injective hvalue, hlhs, hrhs]
    | _ => cases hform
  | _ =>
    obtain ⟨hform, hvalue, hspan, htail⟩ := split_exprLines he he' h
    constructor
    · apply shown_leaf he he' _ hform hvalue hspan
      intro hbinary
      cases hbinary
    · cases e' with
      | binary => cases hform
      | _ => exact htail

/-! ## Where statements end -/

theorem closes_blockLines {depth : Nat} (b : List Stmt) {r : List Line} (hr : Closes depth r) :
    Closes (depth + 1) (blockLines depth b ++ r) := by
  cases b with
  | nil => exact hr.mono (Nat.le_succ depth)
  | cons s rest =>
    rw [blockLines, stmtLines_eq]
    exact closes_cons (Nat.lt_succ_self depth) _

theorem closes_armsLines {depth : Nat} (a : Arms) {r : List Line} (hr : Closes depth r) :
    Closes (depth + 1) (armsLines depth a ++ r) := by
  cases a with
  | done => exact hr.mono (Nat.le_succ depth)
  | otherwise body => exact closes_cons (Nat.lt_succ_self depth) _
  | elseIf condition body rest =>
    rw [armsLines_elseIf]
    exact closes_cons (Nat.lt_succ_self depth) _

/-- An expression that may be absent, with its lines deeper than what follows. -/
theorem optionLines_unique {value value' : Option Expr} (h : ∀ e ∈ value, e.Legible Unspaced)
    (h' : ∀ e ∈ value', e.Legible Unspaced) {depth : Nat} {r r' : List Line} (hr : Closes depth r)
    (hr' : Closes depth r')
    (hlines : optionLines depth value ++ r = optionLines depth value' ++ r') :
    value.map Expr.shown = value'.map Expr.shown ∧ r = r' := by
  cases value with
  | none =>
    cases value' with
    | none => exact ⟨rfl, hlines⟩
    | some e' =>
      -- the line of a value would be as deep as a line that cannot follow here
      rw [optionLines, optionLines, exprLines_eq] at hlines
      exact absurd hlines hr.ne_cons
  | some e =>
    cases value' with
    | none =>
      rw [optionLines, optionLines, exprLines_eq] at hlines
      exact absurd hlines.symm hr'.ne_cons
    | some e' =>
      obtain ⟨hshown, hend⟩ := exprLines_unique (h e rfl) (h' e' rfl) hlines
      exact ⟨congrArg some hshown, hend⟩

/-- The lines of a block show it and where it ends. -/
def UniqueBlock (b : List Stmt) : Prop :=
  ∀ {depth : Nat} {b' : List Stmt} {r r' : List Line}, LegibleBlock Unspaced b' →
    Closes depth r → Closes depth r' → blockLines depth b ++ r = blockLines depth b' ++ r' →
    shownBlock b = shownBlock b' ∧ r = r'

/-- The lines of the arms of a conditional show them and where they end. -/
def UniqueArms (a : Arms) : Prop :=
  ∀ {depth : Nat} {a' : Arms} {r r' : List Line}, a'.Legible Unspaced →
    Closes depth r → Closes depth r' → armsLines depth a ++ r = armsLines depth a' ++ r' →
    a.shown = a'.shown ∧ r = r'

/-- The lines of a statement show it and where it ends. Its parts are one step deeper than it. -/
def UniqueStmt (s : Stmt) : Prop :=
  ∀ {depth : Nat} {s' : Stmt} {r r' : List Line}, s'.Legible Unspaced →
    Closes (depth + 1) r → Closes (depth + 1) r' →
    stmtLines depth s ++ r = stmtLines depth s' ++ r' → s.shown = s'.shown ∧ r = r'

/-! ## Blocks and arms -/

theorem unique_nil : UniqueBlock [] := by
  intro depth b' r r' _ hr _ h
  cases b' with
  | nil => exact ⟨rfl, h⟩
  | cons s' rest' =>
    rw [blockLines, blockLines, stmtLines_eq] at h
    exact absurd h hr.ne_cons

theorem unique_cons {s : Stmt} {rest : List Stmt} (hs : UniqueStmt s)
    (hrest : UniqueBlock rest) : UniqueBlock (s :: rest) := by
  intro depth b' r r' hb' hr hr' h
  cases b' with
  | nil =>
    rw [blockLines, blockLines, stmtLines_eq] at h
    exact absurd h.symm hr'.ne_cons
  | cons s' rest' =>
    rw [blockLines, blockLines, List.append_assoc, List.append_assoc] at h
    obtain ⟨hstmt, htail⟩ := hs hb'.1 (closes_blockLines rest hr) (closes_blockLines rest' hr') h
    obtain ⟨hblock, hend⟩ := hrest hb'.2 hr hr' htail
    exact ⟨by rw [shownBlock, shownBlock, hstmt, hblock], hend⟩

/-- A block under a label, whatever the label is. -/
theorem labelledLines_unique {b b' : List Stmt} (hb : UniqueBlock b)
    (hb' : LegibleBlock Unspaced b') {depth : Nat} {label : String} {r r' : List Line}
    (hr : Closes (depth + 1) r) (hr' : Closes (depth + 1) r')
    (h : labelledLines depth label b ++ r = labelledLines depth label b' ++ r') :
    shownBlock b = shownBlock b' ∧ r = r' :=
  hb hb' hr hr' (List.cons.inj h).2

/-- An expression and a block behind it, as they stand in conditionals and loops. -/
theorem guarded_unique {e e' : Expr} (he : e.Legible Unspaced) (he' : e'.Legible Unspaced)
    {b b' : List Stmt} (hb : UniqueBlock b) (hb' : LegibleBlock Unspaced b') {depth : Nat}
    {label : String} {r r' : List Line} (hr : Closes (depth + 1) r) (hr' : Closes (depth + 1) r')
    (h : exprLines depth e ++ (labelledLines depth label b ++ r) =
      exprLines depth e' ++ (labelledLines depth label b' ++ r')) :
    e.shown = e'.shown ∧ shownBlock b = shownBlock b' ∧ r = r' := by
  obtain ⟨hexpr, htail⟩ := exprLines_unique he he' h
  exact ⟨hexpr, labelledLines_unique hb hb' hr hr' htail⟩

theorem unique_done : UniqueArms .done := by
  intro depth a' r r' _ hr _ h
  cases a' with
  | done => exact ⟨rfl, h⟩
  | otherwise body' => exact absurd h hr.ne_cons
  | elseIf condition' body' rest' =>
    rw [armsLines_elseIf] at h
    exact absurd h hr.ne_cons

theorem labelLine_ne_elseIf (depth : Nat) (b : List Stmt) :
    labelLine depth "else" b ≠ ⟨depth, "else if"⟩ := by
  intro h
  have hcontent := (Line.mk.inj h).2
  split at hcontent
  · exact absurd hcontent (by decide)
  · exact absurd hcontent (by decide)

theorem unique_otherwise {body : List Stmt} (hbody : UniqueBlock body) :
    UniqueArms (.otherwise body) := by
  intro depth a' r r' ha' hr hr' h
  cases a' with
  | done => exact absurd h.symm hr'.ne_cons
  | otherwise body' =>
    obtain ⟨hblock, hend⟩ := labelledLines_unique hbody ha' (hr.mono (Nat.le_succ depth))
      (hr'.mono (Nat.le_succ depth)) h
    exact ⟨by rw [Arms.shown, Arms.shown, hblock], hend⟩
  | elseIf condition' body' rest' =>
    rw [armsLines_elseIf] at h
    exact absurd (List.cons.inj h).1 (labelLine_ne_elseIf depth body)

theorem unique_elseIf {condition : Expr} {body : List Stmt} {rest : Arms}
    (hcondition : condition.Legible Unspaced) (hbody : UniqueBlock body)
    (hrest : UniqueArms rest) : UniqueArms (.elseIf condition body rest) := by
  intro depth a' r r' ha' hr hr' h
  rw [armsLines_elseIf] at h
  cases a' with
  | done => exact absurd h.symm hr'.ne_cons
  | otherwise body' => exact absurd (List.cons.inj h).1.symm (labelLine_ne_elseIf depth body')
  | elseIf condition' body' rest' =>
    rw [armsLines_elseIf] at h
    simp only [List.cons_append, List.append_assoc, List.cons.injEq, true_and] at h
    obtain ⟨hexpr, hblock, htail⟩ := guarded_unique hcondition ha'.1 hbody ha'.2.1
      ((closes_armsLines rest hr).mono (Nat.le_succ _))
      ((closes_armsLines rest' hr').mono (Nat.le_succ _)) h
    obtain ⟨harms, hend⟩ := hrest ha'.2.2 hr hr' htail
    exact ⟨by rw [Arms.shown, Arms.shown, hexpr, hblock, harms], hend⟩

/-! ## Statements -/

/-- Statements with the same lines have the same kind and the same first lines. -/
theorem split_stmtLines {s s' : Stmt} {depth : Nat} {r r' : List Line}
    (h : stmtLines depth s ++ r = stmtLines depth s' ++ r') :
    stmtForm s = stmtForm s' ∧ stmtRest s = stmtRest s' ∧
      stmtTail depth s ++ r = stmtTail depth s' ++ r' := by
  rw [stmtLines_eq, stmtLines_eq, List.cons_append, List.cons_append] at h
  obtain ⟨hline, htail⟩ := List.cons.inj h
  obtain ⟨hform, hrest⟩ := Form.unique (spaced_stmtRest s) (spaced_stmtRest s')
    (Line.mk.inj hline).2
  exact ⟨hform, hrest, htail⟩

/-- What a declaration shows behind the type. -/
def initMark (init : Option Expr) : String :=
  if init.isSome then " (initialized)" else ""

theorem stmtRest_declare (type : VarType) (name : Ident) (init : Option Expr) :
    (stmtRest (.declare type name init)).toList =
      ' ' :: ((typedName name.name type).toList ++ (initMark init).toList) := by
  cases init <;> simp [stmtRest, initMark]

theorem unique_declare {type : VarType} {name : Ident} {init : Option Expr}
    (hs : (Stmt.declare type name init).Legible Unspaced) :
    UniqueStmt (.declare type name init) := by
  intro depth s' r r' hs' hr hr' h
  obtain ⟨hform, hrest, htail⟩ := split_stmtLines h
  cases s' with
  | declare type' name' init' =>
    have hchars := congrArg String.toList hrest
    rw [stmtRest_declare, stmtRest_declare] at hchars
    obtain ⟨hname, htype, -⟩ := typedName_unique hs.1 hs'.1 (List.cons.inj hchars).2
    obtain ⟨hinit, hend⟩ := optionLines_unique hs.2 hs'.2 hr hr' htail
    refine ⟨?_, hend⟩
    rw [Stmt.shown, Stmt.shown, Ident.bare, Ident.bare, hname, htype, hinit]
  | _ => cases hform

theorem unique_assign {expr : Expr} (hs : (Stmt.assign expr).Legible Unspaced) :
    UniqueStmt (.assign expr) := by
  intro depth s' r r' hs' _ _ h
  obtain ⟨hform, -, htail⟩ := split_stmtLines h
  cases s' with
  | assign expr' =>
    obtain ⟨hexpr, hend⟩ := exprLines_unique hs.2 hs'.2 htail
    exact ⟨by rw [Stmt.shown, Stmt.shown, hexpr], hend⟩
  | _ => cases hform

theorem unique_write {expr : Expr} (hs : (Stmt.write expr).Legible Unspaced) :
    UniqueStmt (.write expr) := by
  intro depth s' r r' hs' _ _ h
  obtain ⟨hform, -, htail⟩ := split_stmtLines h
  cases s' with
  | write expr' =>
    obtain ⟨hexpr, hend⟩ := exprLines_unique hs hs' htail
    exact ⟨by rw [Stmt.shown, Stmt.shown, hexpr], hend⟩
  | _ => cases hform

theorem unique_read {target : Ident} {type : VarType}
    (hs : (Stmt.read target type).Legible Unspaced) : UniqueStmt (.read target type) := by
  intro depth s' r r' hs' _ _ h
  obtain ⟨hform, hrest, htail⟩ := split_stmtLines h
  cases s' with
  | read target' type' =>
    have hchars : (typedName target.name type).toList ++ (spanText target.span).toList =
        (typedName target'.name type').toList ++ (spanText target'.span).toList := by
      simpa [stmtRest] using congrArg String.toList hrest
    obtain ⟨hname, htype, hspan⟩ := typedName_unique hs hs' hchars
    have hspan' := spanText_injective (String.toList_inj.mp hspan)
    obtain ⟨name, span⟩ := target
    obtain ⟨name', span'⟩ := target'
    cases show name = name' from hname
    cases show span = span' from hspan'
    cases htype
    exact ⟨rfl, htail⟩
  | _ => cases hform

theorem unique_giveBack {value : Option Expr} (hs : (Stmt.giveBack value).Legible Unspaced) :
    UniqueStmt (.giveBack value) := by
  intro depth s' r r' hs' hr hr' h
  obtain ⟨hform, -, htail⟩ := split_stmtLines h
  cases s' with
  | giveBack value' =>
    obtain ⟨hvalue, hend⟩ := optionLines_unique hs hs' hr hr' htail
    exact ⟨by rw [Stmt.shown, Stmt.shown, hvalue], hend⟩
  | _ => cases hform

theorem unique_branch {condition : Expr} {body : List Stmt} {arms : Arms}
    (hs : (Stmt.branch condition body arms).Legible Unspaced) (hbody : UniqueBlock body)
    (harms : UniqueArms arms) : UniqueStmt (.branch condition body arms) := by
  intro depth s' r r' hs' hr hr' h
  obtain ⟨hform, -, htail⟩ := split_stmtLines h
  cases s' with
  | branch condition' body' arms' =>
    simp only [stmtTail, List.append_assoc] at htail
    obtain ⟨hexpr, hblock, hrest⟩ := guarded_unique hs.1 hs'.1 hbody hs'.2.1
      (closes_armsLines arms hr) (closes_armsLines arms' hr') htail
    obtain ⟨harms', hend⟩ := harms hs'.2.2 hr hr' hrest
    exact ⟨by rw [Stmt.shown, Stmt.shown, hexpr, hblock, harms'], hend⟩
  | _ => cases hform

theorem unique_counted {count : Expr} {body : List Stmt}
    (hs : (Stmt.counted count body).Legible Unspaced) (hbody : UniqueBlock body) :
    UniqueStmt (.counted count body) := by
  intro depth s' r r' hs' hr hr' h
  obtain ⟨hform, -, htail⟩ := split_stmtLines h
  cases s' with
  | counted count' body' =>
    simp only [stmtTail, List.append_assoc] at htail
    obtain ⟨hexpr, hblock, hend⟩ := guarded_unique hs.1 hs'.1 hbody hs'.2
      (hr.mono (Nat.le_succ _)) (hr'.mono (Nat.le_succ _)) htail
    exact ⟨by rw [Stmt.shown, Stmt.shown, hexpr, hblock], hend⟩
  | _ => cases hform

theorem testLabel_injective {test test' : LoopTest} (h : test.label = test'.label) :
    test = test' := by
  cases test <;> cases test' <;> first | rfl | exact absurd h (by decide)

theorem unique_loop {condition : Expr} {body : List Stmt} {test : LoopTest}
    (hs : (Stmt.loop condition body test).Legible Unspaced) (hbody : UniqueBlock body) :
    UniqueStmt (.loop condition body test) := by
  intro depth s' r r' hs' hr hr' h
  obtain ⟨hform, hrest, htail⟩ := split_stmtLines h
  cases s' with
  | loop condition' body' test' =>
    have htest : test = test' := testLabel_injective (by simpa [stmtRest] using hrest)
    simp only [stmtTail, List.append_assoc] at htail
    obtain ⟨hexpr, hblock, hend⟩ := guarded_unique hs.1 hs'.1 hbody hs'.2
      (hr.mono (Nat.le_succ _)) (hr'.mono (Nat.le_succ _)) htail
    exact ⟨by rw [Stmt.shown, Stmt.shown, hexpr, hblock, htest], hend⟩
  | _ => cases hform

mutual

theorem stmtLines_unique {s : Stmt} (hs : s.Legible Unspaced) : UniqueStmt s := by
  cases s with
  | declare type name init => exact unique_declare hs
  | assign expr => exact unique_assign hs
  | write expr => exact unique_write hs
  | read target type => exact unique_read hs
  | giveBack value => exact unique_giveBack hs
  | branch condition body arms =>
    exact unique_branch hs (blockLines_unique hs.2.1) (armsLines_unique hs.2.2)
  | counted count body => exact unique_counted hs (blockLines_unique hs.2)
  | loop condition body test => exact unique_loop hs (blockLines_unique hs.2)

theorem armsLines_unique {a : Arms} (ha : a.Legible Unspaced) : UniqueArms a := by
  cases a with
  | done => exact unique_done
  | otherwise body => exact unique_otherwise (blockLines_unique ha)
  | elseIf condition body rest =>
    exact unique_elseIf ha.1 (blockLines_unique ha.2.1) (armsLines_unique ha.2.2)

/-- The lines of a block show it up to the places that they leave out, and where it ends. -/
theorem blockLines_unique {b : List Stmt} (hb : LegibleBlock Unspaced b) : UniqueBlock b := by
  cases b with
  | nil => exact unique_nil
  | cons s rest => exact unique_cons (stmtLines_unique hb.1) (blockLines_unique hb.2)

end

end Bukvar.Outline
