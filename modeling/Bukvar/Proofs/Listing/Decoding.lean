import Bukvar.Proofs.Layout
import Bukvar.Proofs.Listing.FirstLines

/-!
# The lines of a listing show its statements

Two blocks with the same lines have the same normal form. Their statements are told apart by their
first lines; what is inside a statement is enclosed in braces at its own depth, and all lines
inside are deeper. Behind a conditional the next line shows whether another arm follows.

* `braced_unique`: statements between braces.
* `stmtLines_unique`, `armsLines_unique`, `blockLines_unique`: statements, arms and blocks.
-/

namespace Bukvar.Listing

open Layout (Line Closes closes_cons)
open Token (units)

/-! ## Where statements end -/

/-- No further arm of a conditional at the given depth follows. -/
def NoArm (depth : Nat) (r : List Line) : Prop :=
  ∀ l rest, r = l :: rest → l.depth = depth → formOf? (units l.content.toList) ≠ some .arm

theorem noArm_stmt {s : Stmt} (hs : s.Legible Plain) (intMain : Bool) (depth counters : Nat)
    (r : List Line) : NoArm depth (stmtLines intMain depth counters s ++ r) := by
  intro l rest hl _
  rw [stmtLines_eq, List.cons_append] at hl
  rw [← (List.cons.inj hl).1, formOf?_headText hs]
  cases s <;> exact nofun

theorem noArm_block {b : List Stmt} (hb : LegibleBlock Plain b) (intMain : Bool)
    (depth counters : Nat) {r : List Line} (hr : Closes depth r) :
    NoArm depth (blockLines intMain depth counters b ++ r) := by
  cases b with
  | nil =>
    intro l rest hl hdepth
    have hlt := hr l rest hl
    omega
  | cons s rest =>
    rw [blockLines, List.append_assoc]
    exact noArm_stmt hb.1 intMain depth counters _

variable {intMain : Bool}

/-- The lines of a block determine its normal form and where it ends. -/
def UniqueBlock (intMain : Bool) (b : List Stmt) : Prop :=
  ∀ {depth counters : Nat} {b' : List Stmt} {r r' : List Line}, LegibleBlock Plain b' →
    Closes depth r → Closes depth r' →
    blockLines intMain depth counters b ++ r = blockLines intMain depth counters b' ++ r' →
    normalBlock intMain b = normalBlock intMain b' ∧ r = r'

/-- The lines of the arms of a conditional determine their normal form and where they end. -/
def UniqueArms (intMain : Bool) (a : Arms) : Prop :=
  ∀ {depth counters : Nat} {a' : Arms} {r r' : List Line}, a'.Legible Plain →
    NoArm depth r → NoArm depth r' →
    armsLines intMain depth counters a ++ r = armsLines intMain depth counters a' ++ r' →
    normalArms intMain a = normalArms intMain a' ∧ r = r'

/-- The lines of a statement determine its normal form and where it ends. -/
def UniqueStmt (intMain : Bool) (s : Stmt) : Prop :=
  ∀ {depth counters : Nat} {s' : Stmt} {r r' : List Line}, s'.Legible Plain →
    NoArm depth r → NoArm depth r' →
    stmtLines intMain depth counters s ++ r = stmtLines intMain depth counters s' ++ r' →
    normalStmt intMain s = normalStmt intMain s' ∧ r = r'

theorem braced_unique {b b' : List Stmt} (hb : UniqueBlock intMain b)
    (hb' : LegibleBlock Plain b') {depth counters : Nat} {r r' : List Line}
    (h : braced depth (blockLines intMain (depth + 1) counters b) ++ r =
      braced depth (blockLines intMain (depth + 1) counters b') ++ r') :
    normalBlock intMain b = normalBlock intMain b' ∧ r = r' := by
  simp only [braced, List.cons_append, List.append_assoc, List.nil_append, List.cons.injEq,
    true_and] at h
  have hend : ∀ r, Closes (depth + 1) (⟨depth, "\x7d"⟩ :: r) :=
    closes_cons (Nat.lt_succ_self depth)
  obtain ⟨hblock, hrest⟩ := hb hb' (hend r) (hend r') h
  exact ⟨hblock, (List.cons.inj hrest).2⟩

theorem ne_block_of_closes {depth counters : Nat} {s : Stmt} {rest : List Stmt}
    {r r' : List Line} (hr : Closes depth r) :
    r ≠ blockLines intMain depth counters (s :: rest) ++ r' := by
  intro h
  rw [blockLines, stmtLines_eq] at h
  exact absurd (hr _ _ h) (Nat.lt_irrefl depth)

theorem unique_nil : UniqueBlock intMain [] := by
  intro depth counters b' r r' _ hr _ h
  cases b' with
  | nil => exact ⟨rfl, h⟩
  | cons s' rest' => exact absurd h (ne_block_of_closes hr)

theorem unique_cons {s : Stmt} {rest : List Stmt} (hs : UniqueStmt intMain s)
    (hrest : UniqueBlock intMain rest) (hlegible : LegibleBlock Plain rest) :
    UniqueBlock intMain (s :: rest) := by
  intro depth counters b' r r' hb' hr hr' h
  cases b' with
  | nil => exact absurd h.symm (ne_block_of_closes hr')
  | cons s' rest' =>
    rw [blockLines, blockLines, List.append_assoc, List.append_assoc] at h
    obtain ⟨hstmt, htail⟩ := hs hb'.1 (noArm_block hlegible intMain depth counters hr)
      (noArm_block hb'.2 intMain depth counters hr') h
    obtain ⟨hblock, hend⟩ := hrest hb'.2 hr hr' htail
    exact ⟨by rw [normalBlock, normalBlock, hstmt, hblock], hend⟩

/-! ## Arms -/

/-- The arms leave no trace in a listing. -/
def Silent : Arms → Prop
  | .done => True
  | .otherwise body => body = []
  | .elseIf _ _ _ => False

theorem armsLines_silent {a : Arms} (h : Silent a) (intMain : Bool) (depth counters : Nat) :
    armsLines intMain depth counters a = [] ∧ normalArms intMain a = .done := by
  cases a with
  | done => exact ⟨by rw [armsLines], by rw [normalArms]⟩
  | otherwise body =>
    cases show body = [] from h
    simp [armsLines, normalArms]
  | elseIf condition body rest => exact h.elim

theorem formOf?_elseIf (text : String) :
    formOf? (units ("else if (" ++ text ++ ")").toList) = some .arm := by
  have htext : ("else if (" ++ text ++ ")").toList =
      "else".toList ++ ' ' :: ("if".toList ++ ' ' :: '(' :: (text ++ ")").toList) := by simp
  rw [htext, units_spaced (Token.isAtom_of_isWord (by decide)),
    units_spacedCall (Token.isAtom_of_isWord (by decide)), formOf?_word _ (by decide)]
  rfl

theorem exists_arm {a : Arms} (h : ¬ Silent a) (intMain : Bool) (depth counters : Nat) :
    ∃ l rest, armsLines intMain depth counters a = l :: rest ∧ l.depth = depth ∧
      formOf? (units l.content.toList) = some .arm := by
  cases a with
  | done => exact absurd trivial h
  | otherwise body =>
    have hne : body.isEmpty = false := by simpa using show ¬ body = [] from h
    have helse : formOf? (units "else".toList) = some .arm := by decide +kernel
    rw [armsLines, hne]
    exact ⟨_, _, rfl, rfl, helse⟩
  | elseIf condition body rest =>
    rw [armsLines]
    exact ⟨_, _, rfl, rfl, formOf?_elseIf _⟩

theorem silent_of_noArm {a : Arms} {depth counters : Nat} {r r' : List Line} (hr : NoArm depth r)
    (h : r = armsLines intMain depth counters a ++ r') : Silent a := by
  refine Classical.byContradiction fun hloud => ?_
  obtain ⟨l, rest, hlines, hdepth, hform⟩ := exists_arm hloud intMain depth counters
  rw [hlines] at h
  exact hr l _ h hdepth hform

theorem unique_silent {a : Arms} (ha : Silent a) : UniqueArms intMain a := by
  intro depth counters a' r r' _ hr _ h
  obtain ⟨hlines, hnormal⟩ := armsLines_silent ha intMain depth counters
  rw [hlines, List.nil_append] at h
  obtain ⟨hlines', hnormal'⟩ := armsLines_silent (silent_of_noArm hr h) intMain depth counters
  rw [hlines', List.nil_append] at h
  exact ⟨hnormal.trans hnormal'.symm, h⟩

theorem not_silent_of_lines {a a' : Arms} (ha : ¬ Silent a) {depth counters : Nat}
    {r r' : List Line} (hr' : NoArm depth r')
    (h : armsLines intMain depth counters a ++ r = armsLines intMain depth counters a' ++ r') :
    ¬ Silent a' := by
  intro ha'
  rw [(armsLines_silent ha' intMain depth counters).1, List.nil_append] at h
  exact ha (silent_of_noArm hr' h.symm)

theorem armsLines_otherwise {body : List Stmt} (h : body ≠ []) (intMain : Bool)
    (depth counters : Nat) :
    armsLines intMain depth counters (.otherwise body) =
        ⟨depth, "else"⟩ :: braced depth (blockLines intMain (depth + 1) counters body) ∧
      normalArms intMain (.otherwise body) = .otherwise (normalBlock intMain body) := by
  have hne : body.isEmpty = false := by simpa using h
  rw [armsLines, normalArms, hne]
  exact ⟨rfl, rfl⟩

theorem else_ne_elseIf (text : String) : "else" ≠ "else if (" ++ text ++ ")" := by
  intro h
  have := congrArg (fun t => t.toList.length) h
  simp at this

theorem unique_otherwise {body : List Stmt} (hne : body ≠ []) (hbody : UniqueBlock intMain body) :
    UniqueArms intMain (.otherwise body) := by
  intro depth counters a' r r' ha' hr hr' h
  have hloud := @not_silent_of_lines _ (.otherwise body) _ hne _ _ _ _ hr' h
  obtain ⟨hlines, hnormal⟩ := armsLines_otherwise hne intMain depth counters
  rw [hlines, List.cons_append] at h
  cases a' with
  | done => exact absurd trivial hloud
  | otherwise body' =>
    obtain ⟨hlines', hnormal'⟩ := armsLines_otherwise hloud intMain depth counters
    rw [hlines', List.cons_append] at h
    obtain ⟨hblock, hend⟩ := braced_unique hbody ha' (List.cons.inj h).2
    exact ⟨by rw [hnormal, hnormal', hblock], hend⟩
  | elseIf condition' body' rest' =>
    rw [armsLines] at h
    exact absurd (Line.mk.inj (List.cons.inj h).1).2 (else_ne_elseIf _)

theorem unique_elseIf {condition : Expr} {body : List Stmt} {rest : Arms}
    (hcondition : condition.Legible Plain) (hbody : UniqueBlock intMain body)
    (hrest : UniqueArms intMain rest) : UniqueArms intMain (.elseIf condition body rest) := by
  intro depth counters a' r r' ha' hr hr' h
  have hloud := @not_silent_of_lines _ (.elseIf condition body rest) _ id _ _ _ _ hr' h
  cases a' with
  | done => exact absurd trivial hloud
  | otherwise body' =>
    rw [(armsLines_otherwise hloud intMain depth counters).1, armsLines] at h
    exact absurd (Line.mk.inj (List.cons.inj h).1).2.symm (else_ne_elseIf _)
  | elseIf condition' body' rest' =>
    rw [armsLines, armsLines, List.append_assoc, List.append_assoc] at h
    obtain ⟨hline, htail⟩ := List.cons.inj h
    have htext : exprText condition = exprText condition' := by
      simpa using (Line.mk.inj hline).2
    obtain ⟨hblock, harms⟩ := braced_unique hbody ha'.2.1 htail
    obtain ⟨hnormal, hend⟩ := hrest ha'.2.2 hr hr' harms
    refine ⟨?_, hend⟩
    rw [normalArms, normalArms, written_unique hcondition ha'.1 htext, hblock, hnormal]

/-! ## Statements -/

/-- Where two statements start the same way, so do their first lines, and what follows is the
same. -/
theorem split_lines {s s' : Stmt} (hs : s.Legible Plain) (hs' : s'.Legible Plain)
    {depth counters : Nat} {r r' : List Line}
    (h : stmtLines intMain depth counters s ++ r = stmtLines intMain depth counters s' ++ r') :
    stmtForm s = stmtForm s' ∧ headText intMain counters s = headText intMain counters s' ∧
      tailLines intMain depth counters s ++ r = tailLines intMain depth counters s' ++ r' := by
  rw [stmtLines_eq, stmtLines_eq, List.cons_append, List.cons_append] at h
  obtain ⟨hline, htail⟩ := List.cons.inj h
  have hhead := (Line.mk.inj hline).2
  have hform := formOf?_headText hs intMain counters
  rw [hhead, formOf?_headText hs'] at hform
  exact ⟨(Option.some.inj hform).symm, hhead, htail⟩

theorem unique_declare {type : VarType} {name : Ident} {init : Option Expr}
    (hs : (Stmt.declare type name init).Legible Plain) :
    UniqueStmt intMain (.declare type name init) := by
  intro depth counters s' r r' hs' _ _ h
  obtain ⟨hform, hhead, htail⟩ := split_lines hs hs' h
  cases s' with
  | declare type' name' init' =>
    cases hform
    obtain ⟨hname, hinit⟩ := declareText_unique hs.1 hs'.1 hs.2 hs'.2 hhead
    refine ⟨?_, htail⟩
    rw [normalStmt, normalStmt, Ident.bare, Ident.bare, hname, hinit]
  | _ => cases hform

theorem unique_assign {expr : Expr} (hs : (Stmt.assign expr).Legible Plain) :
    UniqueStmt intMain (.assign expr) := by
  intro depth counters s' r r' hs' _ _ h
  obtain ⟨hform, hhead, htail⟩ := split_lines hs hs' h
  cases s' with
  | assign expr' =>
    have hsame : exprText expr ++ ";" = exprText expr' ++ ";" := hhead
    have htext : exprText expr = exprText expr' := by simpa using hsame
    refine ⟨?_, htail⟩
    rw [normalStmt, normalStmt, written_unique hs.2 hs'.2 htext]
  | read target type => exact absurd hhead (assign_ne_read hs.1 hs.2 hs' type)
  | _ => cases hform

theorem unique_read {target : Ident} {type : VarType} (hs : (Stmt.read target type).Legible Plain) :
    UniqueStmt intMain (.read target type) := by
  intro depth counters s' r r' hs' _ _ h
  obtain ⟨hform, hhead, htail⟩ := split_lines hs hs' h
  cases s' with
  | assign expr' => exact absurd hhead.symm (assign_ne_read hs'.1 hs'.2 hs type)
  | read target' type' =>
    obtain ⟨hname, htype⟩ := readText_unique hs hs' hhead
    refine ⟨?_, htail⟩
    rw [normalStmt, normalStmt, Ident.bare, Ident.bare, hname, htype]
  | _ => cases hform

theorem unique_write {expr : Expr} (hs : (Stmt.write expr).Legible Plain) :
    UniqueStmt intMain (.write expr) := by
  intro depth counters s' r r' hs' _ _ h
  obtain ⟨hform, hhead, htail⟩ := split_lines hs hs' h
  cases s' with
  | write expr' =>
    have hsame : "Console.WriteLine(" ++ exprText expr ++ ");" =
        "Console.WriteLine(" ++ exprText expr' ++ ");" := hhead
    have htext : exprText expr = exprText expr' := by simpa using hsame
    refine ⟨?_, htail⟩
    rw [normalStmt, normalStmt, written_unique hs hs' htext]
  | _ => cases hform

theorem unique_giveBack {value : Option Expr} (hs : (Stmt.giveBack value).Legible Plain) :
    UniqueStmt intMain (.giveBack value) := by
  intro depth counters s' r r' hs' _ _ h
  obtain ⟨hform, hhead, htail⟩ := split_lines hs hs' h
  cases s' with
  | giveBack value' => exact ⟨returnText_unique hs hs' hhead, htail⟩
  | _ => cases hform

theorem unique_branch {condition : Expr} {body : List Stmt} {arms : Arms}
    (hs : (Stmt.branch condition body arms).Legible Plain) (hbody : UniqueBlock intMain body)
    (harms : UniqueArms intMain arms) : UniqueStmt intMain (.branch condition body arms) := by
  intro depth counters s' r r' hs' hr hr' h
  obtain ⟨hform, hhead, htail⟩ := split_lines hs hs' h
  cases s' with
  | branch condition' body' arms' =>
    have hsame : "if (" ++ exprText condition ++ ")" = "if (" ++ exprText condition' ++ ")" := hhead
    have htext : exprText condition = exprText condition' := by simpa using hsame
    simp only [tailLines, List.append_assoc] at htail
    obtain ⟨hblock, hrest⟩ := braced_unique hbody hs'.2.1 htail
    obtain ⟨hnormal, hend⟩ := harms hs'.2.2 hr hr' hrest
    refine ⟨?_, hend⟩
    rw [normalStmt, normalStmt, written_unique hs.1 hs'.1 htext, hblock, hnormal]
  | _ => cases hform

theorem unique_counted {count : Expr} {body : List Stmt}
    (hs : (Stmt.counted count body).Legible Plain) (hbody : UniqueBlock intMain body) :
    UniqueStmt intMain (.counted count body) := by
  intro depth counters s' r r' hs' _ _ h
  obtain ⟨hform, hhead, htail⟩ := split_lines hs hs' h
  cases s' with
  | counted count' body' =>
    have hsame : forText (counterName counters) (exprText count) =
        forText (counterName counters) (exprText count') := hhead
    unfold forText at hsame
    have htext : exprText count = exprText count' := by simpa using hsame
    obtain ⟨hblock, hend⟩ := braced_unique hbody hs'.2 htail
    refine ⟨?_, hend⟩
    rw [normalStmt, normalStmt, written_unique hs.1 hs'.1 htext, hblock]
  | _ => cases hform

theorem unique_loop {condition : Expr} {body : List Stmt} {test : LoopTest}
    (hs : (Stmt.loop condition body test).Legible Plain) (hbody : UniqueBlock intMain body) :
    UniqueStmt intMain (.loop condition body test) := by
  intro depth counters s' r r' hs' _ _ h
  obtain ⟨hform, hhead, htail⟩ := split_lines hs hs' h
  cases s' with
  | loop condition' body' test' =>
    cases hform
    cases test with
    | pre =>
      have hsame : "while (" ++ exprText condition ++ ")" =
          "while (" ++ exprText condition' ++ ")" := hhead
      have htext : exprText condition = exprText condition' := by simpa using hsame
      obtain ⟨hblock, hend⟩ := braced_unique hbody hs'.2 htail
      refine ⟨?_, hend⟩
      rw [normalStmt, normalStmt, written_unique hs.1 hs'.1 htext, hblock]
    | post =>
      simp only [tailLines, List.append_assoc] at htail
      obtain ⟨hblock, hrest⟩ := braced_unique hbody hs'.2 htail
      obtain ⟨hline, hend⟩ := List.cons.inj hrest
      have htext : exprText condition = exprText condition' := by
        simpa using (Line.mk.inj hline).2
      refine ⟨?_, hend⟩
      rw [normalStmt, normalStmt, written_unique hs.1 hs'.1 htext, hblock]
  | _ => cases hform

mutual

theorem stmtLines_unique {s : Stmt} (hs : s.Legible Plain) : UniqueStmt intMain s := by
  cases s with
  | declare type name init => exact unique_declare hs
  | assign expr => exact unique_assign hs
  | write expr => exact unique_write hs
  | read target type => exact unique_read hs
  | giveBack value => exact unique_giveBack hs
  | branch condition body arms =>
    exact unique_branch hs (blockLines_unique hs.2.1) (armsLines_unique hs.2.2)
  | counted count body => exact unique_counted hs (blockLines_unique hs.2)
  | loop condition body test => exact unique_loop hs (blockLines_unique hs.2)

theorem armsLines_unique {a : Arms} (ha : a.Legible Plain) : UniqueArms intMain a := by
  cases a with
  | done => exact @unique_silent intMain .done trivial
  | otherwise body =>
    cases body with
    | nil => exact @unique_silent intMain (.otherwise []) rfl
    | cons s rest => exact unique_otherwise (List.cons_ne_nil s rest) (blockLines_unique ha)
  | elseIf condition body rest =>
    exact unique_elseIf ha.1 (blockLines_unique ha.2.1) (armsLines_unique ha.2.2)

/-- The lines of a block show its normal form and where it ends. -/
theorem blockLines_unique {b : List Stmt} (hb : LegibleBlock Plain b) : UniqueBlock intMain b := by
  cases b with
  | nil => exact unique_nil
  | cons s rest => exact unique_cons (stmtLines_unique hb.1) (blockLines_unique hb.2) hb.2

end

end Bukvar.Listing
