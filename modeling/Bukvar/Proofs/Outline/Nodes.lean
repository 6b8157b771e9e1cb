import Bukvar.Outline
import Bukvar.Proofs.Layout
import Bukvar.Proofs.Listing.Spelling

/-!
# What the lines of an outline say

The first line of a node starts with a word for its kind. Behind the word stand what the node
holds and its place, except that declarations have no place there, and the place of a variable is
not that of the name in it, which can be smaller. `shown` leaves out the places that no line has.

* `stmtLines_shown`, `blockLines_shown`: no line depends on what `shown` leaves out.
* `Form.unique`, `exprRest_unique`, `typedName_unique`: the parts of first lines.
* `openLines_blockLines`: where lines start and end.
-/

namespace Bukvar

/-! ## Places that are shown -/

/-- The expression with those places that an outline shows. -/
def Expr.shown : Expr → Expr
  | binary op lhs rhs span => binary op lhs.shown rhs.shown span
  | ident id span => ident id.bare span
  | integer value span => integer value span
  | double value span => double value span
  | string value span => string value span

mutual

/-- The statement with those places that an outline shows. -/
def Stmt.shown : Stmt → Stmt
  | .declare type name init => .declare type name.bare (init.map Expr.shown)
  | .assign expr => .assign expr.shown
  | .write expr => .write expr.shown
  | .read target type => .read target type
  | .giveBack value => .giveBack (value.map Expr.shown)
  | .branch condition body arms => .branch condition.shown (shownBlock body) arms.shown
  | .counted count body => .counted count.shown (shownBlock body)
  | .loop condition body test => .loop condition.shown (shownBlock body) test

/-- The arms of a conditional with those places that an outline shows. -/
def Arms.shown : Arms → Arms
  | .done => .done
  | .otherwise body => .otherwise (shownBlock body)
  | .elseIf condition body rest => .elseIf condition.shown (shownBlock body) rest.shown

/-- The statements of a block with those places that an outline shows. -/
def shownBlock : List Stmt → List Stmt
  | [] => []
  | stmt :: rest => stmt.shown :: shownBlock rest

end

theorem Span.text_injective {s t : Span} (h : s.text = t.text) : s = t := by
  have hpoint : ∀ n, '.' ∉ Decimal.digits n := by
    intro n hmem
    exact absurd (List.all_eq_true.mp (Decimal.isDigit_digits n) _ hmem) (by decide)
  have hsplit : ∀ s : Span,
      s.text.toList = Decimal.digits s.lo ++ '.' :: '.' :: Decimal.digits s.hi := by
    intro s
    simp [text]
  have hchars := congrArg String.toList h
  rw [hsplit, hsplit] at hchars
  obtain ⟨hlo, hrest⟩ := Text.before_unique (hpoint _) (hpoint _) hchars
  have hlo' := congrArg Decimal.ofDigits hlo
  have hhi' := congrArg Decimal.ofDigits (List.cons.inj hrest).2
  rw [Decimal.ofDigits_digits, Decimal.ofDigits_digits] at hlo' hhi'
  have hs := ofBounds_lo_hi s
  rw [hlo', hhi', ofBounds_lo_hi t] at hs
  exact (Except.ok.inj hs).symm

theorem Operator.label_injective {op op' : Operator} (h : op.label = op'.label) : op = op' := by
  cases op <;> cases op' <;> first | rfl | exact absurd h (by decide)

namespace Outline

open Layout (Line OpensLine opensLine_append OpenLines openLines_nil)

/-! ## Lines without the other places -/

theorem exprLines_shown (depth : Nat) (e : Expr) : exprLines depth e.shown = exprLines depth e := by
  induction e generalizing depth with
  | binary op lhs rhs span ihl ihr => rw [Expr.shown, exprLines, exprLines, ihl, ihr]
  | _ => rfl

theorem declareLines_shown (depth : Nat) (type : VarType) (name : String) (init : Option Expr) :
    declareLines depth type name (init.map Expr.shown) = declareLines depth type name init := by
  cases init with
  | none => rfl
  | some e => simp only [Option.map_some, declareLines, exprLines_shown]

theorem labelLine_shown (depth : Nat) (label : String) (b : List Stmt) :
    labelLine depth label (shownBlock b) = labelLine depth label b := by
  cases b <;> rfl

mutual

theorem stmtLines_shown (depth : Nat) (s : Stmt) : stmtLines depth s.shown = stmtLines depth s := by
  cases s with
  | declare type name init => exact declareLines_shown depth type name.name init
  | giveBack value => cases value <;> simp only [Stmt.shown, Option.map, stmtLines, exprLines_shown]
  | branch condition body arms =>
    simp only [Stmt.shown, stmtLines, exprLines_shown, labelLine_shown, blockLines_shown _ body,
      armsLines_shown _ arms]
  | counted count body =>
    simp only [Stmt.shown, stmtLines, exprLines_shown, labelLine_shown, blockLines_shown _ body]
  | loop condition body test =>
    simp only [Stmt.shown, stmtLines, exprLines_shown, labelLine_shown, blockLines_shown _ body]
  | _ => simp only [Stmt.shown, stmtLines, exprLines_shown]

theorem armsLines_shown (depth : Nat) (a : Arms) : armsLines depth a.shown = armsLines depth a := by
  cases a with
  | done => rfl
  | otherwise body => simp only [Arms.shown, armsLines, labelLine_shown, blockLines_shown _ body]
  | elseIf condition body rest =>
    simp only [Arms.shown, armsLines, exprLines_shown, labelLine_shown, blockLines_shown _ body,
      armsLines_shown _ rest]

theorem blockLines_shown (depth : Nat) (b : List Stmt) :
    blockLines depth (shownBlock b) = blockLines depth b := by
  cases b with
  | nil => rfl
  | cons s rest =>
    simp only [shownBlock, blockLines, stmtLines_shown _ s, blockLines_shown _ rest]

end

/-! ## First words -/

/-- The kinds of nodes. -/
inductive Form where
  | binary
  | ident
  | integer
  | double
  | string
  | declare
  | assign
  | write
  | read
  | giveBack
  | branch
  | counted
  | loop
deriving DecidableEq

/-- The first word of a node. -/
def Form.word : Form → String
  | .binary => "binary"
  | .ident => "ident"
  | .integer => "int"
  | .double => "double"
  | .string => "string"
  | .declare => "declaration"
  | .assign => "assignment"
  | .write => "write"
  | .read => "read"
  | .giveBack => "return"
  | .branch => "if"
  | .counted => "counted"
  | .loop => "while"

/-- The kind of an expression. -/
def exprForm : Expr → Form
  | .binary .. => .binary
  | .ident .. => .ident
  | .integer .. => .integer
  | .double .. => .double
  | .string .. => .string

/-- The kind of a statement. -/
def stmtForm : Stmt → Form
  | .declare .. => .declare
  | .assign _ => .assign
  | .write _ => .write
  | .read .. => .read
  | .giveBack _ => .giveBack
  | .branch .. => .branch
  | .counted .. => .counted
  | .loop .. => .loop

theorem Form.word_injective {form form' : Form} (h : form.word = form'.word) : form = form' := by
  cases form <;> cases form' <;> first | rfl | exact absurd h (by decide)

/-- The text is empty or starts with a blank. -/
def Spaced (text : String) : Prop :=
  ∀ c ∈ text.toList.head?, c = ' '

theorem Form.takeWhile_word (form : Form) {rest : String} (h : Spaced rest) :
    (form.word ++ rest).toList.takeWhile (· ≠ ' ') = form.word.toList := by
  have hword : form.word.toList.all (· ≠ ' ') = true := by cases form <;> decide
  have hrest : rest.toList.takeWhile (· ≠ ' ') = [] := by
    unfold Spaced at h
    generalize rest.toList = cs at h
    cases cs with
    | nil => rfl
    | cons c cs => simp [h c rfl]
  rw [String.toList_append, List.takeWhile_append_of_pos (List.all_eq_true.mp hword), hrest,
    List.append_nil]

/-- A first line shows the kind of its node. -/
theorem Form.unique {form form' : Form} {rest rest' : String} (hrest : Spaced rest)
    (hrest' : Spaced rest') (h : form.word ++ rest = form'.word ++ rest') :
    form = form' ∧ rest = rest' := by
  have hword := form.takeWhile_word hrest
  rw [h, form'.takeWhile_word hrest'] at hword
  obtain rfl := word_injective (String.toList_inj.mp hword)
  exact ⟨rfl, by simpa using h⟩

/-! ## First lines of expressions -/

/-- No blank occurs in the name. -/
def Unspaced (name : String) : Prop :=
  ∀ c ∈ name.toList, Text.isBlank c = false

instance (name : String) : Decidable (Unspaced name) :=
  decidable_of_iff (name.toList.all (!Text.isBlank ·) = true) (by simp [Unspaced])

theorem Unspaced.not_mem {name : String} (h : Unspaced name) {c : Char}
    (hc : Text.isBlank c = true) : c ∉ name.toList := by
  intro hmem
  rw [h c hmem] at hc
  cases hc

/-- What is shown behind the first word of an expression, beside its place. -/
def valueText : Expr → String
  | .binary op _ _ _ => op.label
  | .ident id _ => id.name
  | .integer value _ => Decimal.integerText value
  | .double value _ => value.text
  | .string value _ => Text.quoted value

/-- What stands behind the first word of the first line of an expression. -/
def exprRest (e : Expr) : String :=
  " " ++ valueText e ++ spanText e.span

/-- The lines of the parts of an expression. -/
def exprTail (depth : Nat) : Expr → List Line
  | .binary _ lhs rhs _ => exprLines (depth + 1) lhs ++ exprLines (depth + 1) rhs
  | _ => []

theorem exprLines_eq (depth : Nat) (e : Expr) :
    exprLines depth e = ⟨depth, (exprForm e).word ++ exprRest e⟩ :: exprTail depth e := by
  cases e <;> simp [exprLines, exprForm, Form.word, exprRest, valueText, exprTail, Expr.span,
    ← String.append_assoc]

theorem toList_spanText (span : Span) :
    (spanText span).toList = ' ' :: '(' :: (span.text.toList ++ [')']) := by
  simp [spanText]

theorem spanText_injective {s t : Span} (h : spanText s = spanText t) : s = t := by
  have hchars := congrArg String.toList h
  simp only [toList_spanText, List.cons.injEq, true_and, List.append_cancel_right_eq,
    String.toList_inj] at hchars
  exact Span.text_injective hchars

theorem unspaced_of_isNumeric {text : String} (h : ∀ c ∈ text.toList, Decimal.isNumeric c = true) :
    Unspaced text := by
  intro c hc
  exact (Token.endsWord_eq_false_iff.mp (Decimal.endsWord_of_isNumeric (h c hc))).1.1

theorem unspaced_operatorLabel (op : Operator) : Unspaced op.label := by
  cases op <;> decide

/-- The value of an expression that is no string holds no blank. -/
theorem unspaced_valueText {e : Expr} (he : e.Legible Unspaced) (hs : exprForm e ≠ .string) :
    Unspaced (valueText e) := by
  cases e with
  | binary op lhs rhs span => exact unspaced_operatorLabel op
  | ident id span => exact he
  | integer value span =>
    exact unspaced_of_isNumeric fun _ hc => Decimal.isNumeric_of_mem_integerText hc
  | double value span => exact unspaced_of_isNumeric fun _ hc => Decimal.isNumeric_of_mem_text he hc
  | string value span => exact absurd rfl hs

/-- Of two expressions of the same kind, the first lines show the values and places. -/
theorem exprRest_unique {e e' : Expr} (he : e.Legible Unspaced) (he' : e'.Legible Unspaced)
    (hform : exprForm e = exprForm e') (h : exprRest e = exprRest e') :
    valueText e = valueText e' ∧ e.span = e'.span := by
  have hchars : (valueText e).toList ++ (spanText e.span).toList =
      (valueText e').toList ++ (spanText e'.span).toList := by
    simpa [exprRest] using congrArg String.toList h
  suffices hparts : valueText e = valueText e' ∧
      (spanText e.span).toList = (spanText e'.span).toList from
    ⟨hparts.1, spanText_injective (String.toList_inj.mp hparts.2)⟩
  by_cases hs : exprForm e = .string
  · -- a string may hold blanks, but it ends at its second quote
    cases e with
    | string value span =>
      cases e' with
      | string value' span' =>
        obtain ⟨rfl, hspan⟩ := Text.quoted_unique hchars
        exact ⟨rfl, hspan⟩
      | _ => cases hform
    | _ => cases hs
  · rw [toList_spanText, toList_spanText] at hchars ⊢
    have hspace := (unspaced_valueText he hs).not_mem (show Text.isBlank ' ' = true by decide)
    have hspace' := (unspaced_valueText he' (hform ▸ hs)).not_mem
      (show Text.isBlank ' ' = true by decide)
    obtain ⟨hvalue, hspan⟩ := Text.before_unique hspace hspace' hchars
    exact ⟨String.toList_inj.mp hvalue, by rw [hspan]⟩

/-! ## First lines of statements -/

/-- A name and its type. -/
def typedName (name : String) (type : VarType) : String :=
  name ++ ": " ++ type.label

/-- What stands behind the first word of the first line of a statement. -/
def stmtRest : Stmt → String
  | .declare type name none => " " ++ typedName name.name type
  | .declare type name (some _) => " " ++ typedName name.name type ++ " (initialized)"
  | .read target type => " " ++ typedName target.name type ++ spanText target.span
  | .counted _ _ => " loop"
  | .loop _ _ test => " loop " ++ test.label
  | _ => ""

/-- The labels of types differ in their first letters. -/
theorem typeLabel_unique {type type' : VarType} {xs ys : List Char}
    (h : type.label.toList ++ xs = type'.label.toList ++ ys) : type = type' ∧ xs = ys := by
  cases type <;> cases type' <;> simp [VarType.label] at h ⊢ <;> exact h

theorem typedName_unique {name name' : String} {type type' : VarType} {xs ys : List Char}
    (hname : Unspaced name) (hname' : Unspaced name')
    (h : (typedName name type).toList ++ xs = (typedName name' type').toList ++ ys) :
    name = name' ∧ type = type' ∧ xs = ys := by
  have hspace : ∀ {name}, Unspaced name → ' ' ∉ name.toList ++ [':'] := by
    intro name hname
    simp [hname.not_mem (show Text.isBlank ' ' = true by decide)]
  have hsplit : ∀ name type xs, (typedName name type).toList ++ xs =
      (name.toList ++ [':']) ++ ' ' :: (type.label.toList ++ xs) := by
    intro name type xs
    simp [typedName]
  rw [hsplit, hsplit] at h
  obtain ⟨hcolon, htype⟩ := Text.before_unique (hspace hname) (hspace hname') h
  exact ⟨String.toList_inj.mp (List.append_cancel_right hcolon), typeLabel_unique htype⟩

/-- The lines of an expression that may be absent. -/
def optionLines (depth : Nat) : Option Expr → List Line
  | none => []
  | some e => exprLines depth e

/-- A block with the line above it. -/
def labelledLines (depth : Nat) (label : String) (block : List Stmt) : List Line :=
  labelLine depth label block :: blockLines (depth + 1) block

/-- The lines of a statement behind its first one. -/
def stmtTail (depth : Nat) : Stmt → List Line
  | .declare _ _ init => optionLines (depth + 1) init
  | .assign expr => exprLines (depth + 1) expr
  | .write expr => exprLines (depth + 1) expr
  | .read _ _ => []
  | .giveBack value => optionLines (depth + 1) value
  | .branch condition body arms =>
    exprLines (depth + 1) condition ++
      (labelledLines (depth + 1) "then" body ++ armsLines (depth + 1) arms)
  | .counted count body => exprLines (depth + 1) count ++ labelledLines (depth + 1) "body" body
  | .loop condition body _ =>
    exprLines (depth + 1) condition ++ labelledLines (depth + 1) "body" body

theorem stmtLines_eq (depth : Nat) (s : Stmt) :
    stmtLines depth s = ⟨depth, (stmtForm s).word ++ stmtRest s⟩ :: stmtTail depth s := by
  cases s with
  | declare type name init =>
    cases init <;> simp [stmtLines, declareLines, stmtForm, Form.word, stmtRest, typedName,
      stmtTail, optionLines, ← String.append_assoc]
  | giveBack value =>
    cases value <;> simp [stmtLines, stmtForm, Form.word, stmtRest, stmtTail, optionLines]
  | _ =>
    simp [stmtLines, stmtForm, Form.word, stmtRest, typedName, stmtTail, labelledLines,
      ← String.append_assoc]

theorem armsLines_elseIf (depth : Nat) (condition : Expr) (body : List Stmt) (rest : Arms) :
    armsLines depth (.elseIf condition body rest) =
      ⟨depth, "else if"⟩ :: (exprLines (depth + 1) condition ++
        (labelledLines (depth + 1) "then" body ++ armsLines depth rest)) := by
  simp [armsLines, labelledLines]

theorem spaced_exprRest (e : Expr) : Spaced (exprRest e) := by
  simp [Spaced, exprRest]

theorem spaced_stmtRest (s : Stmt) : Spaced (stmtRest s) := by
  cases s with
  | declare type name init => cases init <;> simp [Spaced, stmtRest]
  | _ => simp [Spaced, stmtRest]

/-! ## Where lines start and end -/

theorem newline_spanText (span : Span) : '\n' ∉ (spanText span).toList := by
  have hdigits : ∀ n, '\n' ∉ Decimal.digits n := by
    intro n hmem
    cases Decimal.isNumeric_of_mem_digits hmem
  simp [spanText, Span.text, hdigits]

theorem newline_exprRest {e : Expr} (he : e.Legible Unspaced) : '\n' ∉ (exprRest e).toList := by
  have hvalue : '\n' ∉ (valueText e).toList := by
    by_cases hs : exprForm e = .string
    · cases e with
      | string value span => exact Text.newline_quoted value
      | _ => cases hs
    · exact (unspaced_valueText he hs).not_mem (by decide)
  simp [exprRest, hvalue, newline_spanText]

theorem newline_typedName {name : String} (hname : Unspaced name) (type : VarType) :
    '\n' ∉ (typedName name type).toList := by
  have htype : '\n' ∉ type.label.toList := by cases type <;> decide
  simp [typedName, htype, hname.not_mem (show Text.isBlank '\n' = true by decide)]

theorem newline_stmtRest {s : Stmt} (hs : s.Legible Unspaced) : '\n' ∉ (stmtRest s).toList := by
  cases s with
  | declare type name init =>
    cases init <;> simp [stmtRest, newline_typedName hs.1]
  | read target type => simp [stmtRest, newline_typedName hs, newline_spanText]
  | loop condition body test => cases test <;> simp [stmtRest, LoopTest.label]
  | _ => simp [stmtRest]

theorem opensLine_word (form : Form) {rest : String} (h : '\n' ∉ rest.toList) :
    OpensLine (form.word ++ rest).toList :=
  opensLine_append (by cases form <;> decide) h

theorem openLines_exprLines {e : Expr} (he : e.Legible Unspaced) (depth : Nat) :
    OpenLines (exprLines depth e) := by
  induction e generalizing depth with
  | binary op lhs rhs span ihl ihr =>
    rw [exprLines_eq]
    exact ((ihl he.1 _).append (ihr he.2.1 _)).cons (opensLine_word _ (newline_exprRest he))
  | _ =>
    rw [exprLines_eq]
    exact openLines_nil.cons (opensLine_word _ (newline_exprRest he))

theorem openLines_optionLines {value : Option Expr} (h : ∀ e ∈ value, e.Legible Unspaced)
    (depth : Nat) : OpenLines (optionLines depth value) := by
  cases value with
  | none => exact openLines_nil
  | some e => exact openLines_exprLines (h e rfl) depth

theorem openLines_labelledLines {label : String} (hlabel : OpensLine label.toList)
    {block : List Stmt} {depth : Nat} (h : OpenLines (blockLines (depth + 1) block)) :
    OpenLines (labelledLines depth label block) := by
  refine OpenLines.cons ?_ h
  unfold labelLine
  split
  · exact opensLine_append hlabel (by decide)
  · exact hlabel

mutual

theorem openLines_stmtLines {s : Stmt} (hs : s.Legible Unspaced) (depth : Nat) :
    OpenLines (stmtLines depth s) := by
  rw [stmtLines_eq]
  refine OpenLines.cons (opensLine_word _ (newline_stmtRest hs)) ?_
  cases s with
  | declare type name init => exact openLines_optionLines hs.2 _
  | assign expr => exact openLines_exprLines hs.2 _
  | write expr => exact openLines_exprLines hs _
  | read target type => exact openLines_nil
  | giveBack value => exact openLines_optionLines hs _
  | branch condition body arms =>
    exact (openLines_exprLines hs.1 _).append
      ((openLines_labelledLines (by decide) (openLines_blockLines hs.2.1 _)).append
        (openLines_armsLines hs.2.2 _))
  | counted count body =>
    exact (openLines_exprLines hs.1 _).append
      (openLines_labelledLines (by decide) (openLines_blockLines hs.2 _))
  | loop condition body test =>
    exact (openLines_exprLines hs.1 _).append
      (openLines_labelledLines (by decide) (openLines_blockLines hs.2 _))

theorem openLines_armsLines {a : Arms} (ha : a.Legible Unspaced) (depth : Nat) :
    OpenLines (armsLines depth a) := by
  cases a with
  | done => exact openLines_nil
  | otherwise body => exact openLines_labelledLines (by decide) (openLines_blockLines ha _)
  | elseIf condition body rest =>
    rw [armsLines_elseIf]
    refine OpenLines.cons (by decide : OpensLine "else if".toList) ?_
    exact (openLines_exprLines ha.1 _).append
      ((openLines_labelledLines (by decide) (openLines_blockLines ha.2.1 _)).append
        (openLines_armsLines ha.2.2 _))

/-- The lines of a block start behind their indentation and end where they should. -/
theorem openLines_blockLines {b : List Stmt} (hb : LegibleBlock Unspaced b) (depth : Nat) :
    OpenLines (blockLines depth b) := by
  cases b with
  | nil => exact openLines_nil
  | cons s rest => exact (openLines_stmtLines hb.1 depth).append (openLines_blockLines hb.2 depth)

end

end Outline

end Bukvar
