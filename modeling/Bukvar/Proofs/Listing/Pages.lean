import Bukvar.Proofs.Layout
import Bukvar.Proofs.Listing.Entries

/-!
# A listing as text

The text of a listing shows its lines: no line holds a newline, and what comes behind the
indentation of a line does not start with a blank.

* `clean_lines`: every line of a listing can be told from its text.
-/

namespace Bukvar.Listing

open Layout (Line OpensLine opensLine_append OpenLines openLines_nil clean_of_opensLine)
open Token (IsAtom IsUnit)

theorem opensLine_of_isUnit {u : List Char} (h : IsUnit u) : OpensLine u := by
  cases h with
  | @standalone c h =>
    have hblank := Token.isBlank_of_isStandalone h
    refine ⟨?_, by simp [hblank]⟩
    rintro hmem
    rw [← List.mem_singleton.mp hmem] at hblank
    cases hblank
  | @quoted body h =>
    refine ⟨?_, rfl⟩
    intro hmem
    cases h '\n' (by simpa using hmem)
  | @word c cs hb hs h =>
    refine ⟨?_, by simp [hb]⟩
    intro hmem
    rcases List.mem_cons.mp hmem with rfl | hmem
    · cases hb
    · cases h _ hmem

theorem opensLine_of_isAtom {u : List Char} (h : IsAtom u) : OpensLine u := by
  cases h with
  | word hne h =>
    obtain ⟨c, cs, rfl⟩ := List.exists_cons_of_ne_nil hne
    obtain ⟨hc, hcs⟩ := List.forall_mem_cons.mp h
    obtain ⟨⟨hblank, hstandalone⟩, -⟩ := Token.endsWord_eq_false_iff.mp hc
    exact opensLine_of_isUnit (.word hblank hstandalone hcs)
  | quoted h => exact opensLine_of_isUnit (.quoted h)

theorem newline_symbol (op : Operator) : '\n' ∉ op.symbol.toList :=
  (opensLine_of_isAtom (Token.isAtom_symbol op)).1

theorem newline_operandText {e : Expr} {text : String} (h : '\n' ∉ text.toList) :
    '\n' ∉ (operandText e text).toList := by
  unfold operandText
  split
  · simpa [parenthesized] using h
  · exact h

theorem newline_counterName (counters : Nat) : '\n' ∉ (counterName counters).toList := by
  have hdigits : '\n' ∉ Decimal.digits (counters + 1) := by
    intro hmem
    cases Decimal.isNumeric_of_mem_digits hmem
  simp [counterName, hdigits]

section

variable {named : String → Prop} (hnamed : ∀ n, named n → OpensLine n.toList)
include hnamed

theorem opensLine_exprText {e : Expr} (he : e.Legible named) : OpensLine (exprText e).toList := by
  induction e with
  | binary op lhs rhs span ihl ihr =>
    have hlhs := ihl he.1
    have hrhs := ihr he.2.1
    by_cases hop : op = .assign
    · subst hop
      have htext : exprText (.binary .assign lhs rhs span) =
          exprText lhs ++ (" = " ++ exprText rhs) := by
        simp [exprText, String.append_assoc]
      rw [htext]
      exact opensLine_append hlhs (by simp [hrhs.1])
    · rw [exprText_operation hop, parenthesized, String.append_assoc]
      refine opensLine_append (by decide) ?_
      simp [newline_operandText hlhs.1, newline_operandText hrhs.1, newline_symbol]
  | ident id span => exact hnamed _ he
  | integer value span => exact opensLine_of_isAtom (isAtom_integerText value)
  | double value span => exact opensLine_of_isAtom (isAtom_doubleText he)
  | string value span =>
    have hatom := @IsAtom.quoted value.toList he
    exact opensLine_of_isAtom (by simpa [exprText] using hatom)

/-- An expression between fixed texts. -/
theorem opensLine_enclosed {front back : String} (hfront : OpensLine front.toList)
    (hback : '\n' ∉ back.toList) {e : Expr} (he : e.Legible named) :
    OpensLine (front ++ exprText e ++ back).toList := by
  rw [String.append_assoc]
  exact opensLine_append hfront (by simp [(opensLine_exprText hnamed he).1, hback])

theorem opensLine_declareText {name : String} {init : Option Expr} (hname : named name)
    (hinit : ∀ e ∈ init, e.Legible named) (type : VarType) :
    OpensLine (declareText type name init).toList := by
  have htype := opensLine_of_isAtom (isAtom_typeName type)
  have hname' := (hnamed name hname).1
  cases init with
  | none =>
    simp only [declareText, String.append_assoc]
    exact opensLine_append htype (by simp [hname'])
  | some e =>
    simp only [declareText, String.append_assoc]
    exact opensLine_append htype (by simp [hname', (opensLine_exprText hnamed (hinit e rfl)).1])

theorem opensLine_readText {name : String} (hname : named name) (type : VarType) :
    OpensLine (readText name type).toList := by
  cases type with
  | integer => exact opensLine_append (hnamed name hname) (by decide)
  | double =>
    rw [readText, String.append_assoc]
    exact opensLine_append (hnamed name hname) (by simp)
  | string => exact opensLine_append (hnamed name hname) (by decide)

theorem opensLine_headText {s : Stmt} (hs : s.Legible named) (intMain : Bool) (counters : Nat) :
    OpensLine (headText intMain counters s).toList := by
  cases s with
  | declare type name init => exact opensLine_declareText hnamed hs.1 hs.2 type
  | assign expr => exact opensLine_append (opensLine_exprText hnamed hs.2) (by decide)
  | write expr => exact opensLine_enclosed hnamed (by decide) (by decide) hs
  | read target type => exact opensLine_readText hnamed hs type
  | giveBack value =>
    cases value with
    | none =>
      cases intMain with
      | false => exact (by decide : OpensLine "return;".toList)
      | true => exact (by decide : OpensLine "return 0;".toList)
    | some e => exact opensLine_enclosed hnamed (by decide) (by decide) (hs e rfl)
  | branch condition body arms => exact opensLine_enclosed hnamed (by decide) (by decide) hs.1
  | counted count body =>
    change OpensLine (forText (counterName counters) (exprText count)).toList
    unfold forText
    simp only [String.append_assoc]
    refine opensLine_append (by decide) ?_
    simp [newline_counterName, (opensLine_exprText hnamed hs.1).1]
  | loop condition body test =>
    cases test with
    | pre => exact opensLine_enclosed hnamed (by decide) (by decide) hs.1
    | post => exact (by decide : OpensLine "do".toList)

end

theorem openLines_braced {body : List Line} (h : OpenLines body) (depth : Nat) :
    OpenLines (braced depth body) :=
  .cons (by decide : OpensLine "\x7b".toList)
    (h.append (openLines_nil.cons (by decide : OpensLine "\x7d".toList)))

section

variable {named : String → Prop}

mutual

theorem openLines_stmtLines (hnamed : ∀ n, named n → OpensLine n.toList) {s : Stmt}
    (hs : s.Legible named) (intMain : Bool) (depth counters : Nat) :
    OpenLines (stmtLines intMain depth counters s) := by
  rw [stmtLines_eq]
  refine OpenLines.cons ?_ ?_
  · exact opensLine_headText hnamed hs intMain counters
  cases s with
  | branch condition body arms =>
    exact (openLines_braced (openLines_blockLines hnamed hs.2.1 intMain _ _) depth).append
      (openLines_armsLines hnamed hs.2.2 intMain depth counters)
  | counted count body =>
    exact openLines_braced (openLines_blockLines hnamed hs.2 intMain _ _) depth
  | loop condition body test =>
    have hbody := openLines_braced (openLines_blockLines hnamed hs.2 intMain (depth + 1) counters)
      depth
    cases test with
    | pre => exact hbody
    | post =>
      refine hbody.append (openLines_nil.cons ?_)
      exact opensLine_enclosed hnamed (by decide) (by decide) hs.1
  | _ => exact openLines_nil

theorem openLines_armsLines (hnamed : ∀ n, named n → OpensLine n.toList) {a : Arms}
    (ha : a.Legible named) (intMain : Bool) (depth counters : Nat) :
    OpenLines (armsLines intMain depth counters a) := by
  cases a with
  | done => exact openLines_nil
  | otherwise body =>
    rw [armsLines]
    split
    · exact openLines_nil
    · exact .cons (by decide : OpensLine "else".toList)
        (openLines_braced (openLines_blockLines hnamed ha intMain _ _) depth)
  | elseIf condition body rest =>
    rw [armsLines]
    refine .append (.cons ?_ ?_) (openLines_armsLines hnamed ha.2.2 intMain _ _)
    · exact opensLine_enclosed hnamed (by decide) (by decide) ha.1
    · exact openLines_braced (openLines_blockLines hnamed ha.2.1 intMain _ _) depth

theorem openLines_blockLines (hnamed : ∀ n, named n → OpensLine n.toList) {b : List Stmt}
    (hb : LegibleBlock named b) (intMain : Bool) (depth counters : Nat) :
    OpenLines (blockLines intMain depth counters b) := by
  cases b with
  | nil => exact openLines_nil
  | cons s rest =>
    rw [blockLines]
    exact (openLines_stmtLines hnamed hb.1 intMain depth counters).append
      (openLines_blockLines hnamed hb.2 intMain depth counters)

end

theorem openLines_mainLines (hnamed : ∀ n, named n → OpensLine n.toList) {p : Program}
    (hp : LegibleBlock named p) : OpenLines (mainLines p) := by
  refine (openLines_blockLines hnamed hp _ 2 0).append ?_
  unfold closingReturn
  split
  · exact openLines_nil.cons (by decide : OpensLine "return 0;".toList)
  · exact openLines_nil

end

/-- The names that are chosen for a listing do not end their lines. -/
structure Options.OneLine (options : Options) : Prop where
  nameSpace : '\n' ∉ options.nameSpace.toList
  className : '\n' ∉ options.className.toList

/-- All lines of a listing start behind their indentation, except for the second and the fourth
one, which are empty. -/
theorem opensLine_lines {named : String → Prop} (hnamed : ∀ n, named n → OpensLine n.toList)
    {options : Options} (hoptions : options.OneLine) {p : Program} (hp : LegibleBlock named p)
    {i : Nat} {l : Line} (hl : (lines options p)[i]? = some l) :
    if i = 1 ∨ i = 3 then l = ⟨0, ""⟩ else OpensLine l.content.toList := by
  have hspace : OpensLine ("namespace " ++ options.nameSpace ++ ";").toList := by
    rw [String.append_assoc]
    exact opensLine_append (by decide) (by simp [hoptions.nameSpace])
  have hclass : OpensLine ("public class " ++ options.className).toList :=
    opensLine_append (by decide) hoptions.className
  have htype : OpensLine ("public static " ++ mainType p ++ " Main()").toList := by
    rw [String.append_assoc]
    refine opensLine_append (by decide) ?_
    unfold mainType
    split <;> decide
  have hrest : OpenLines (⟨0, "public class " ++ options.className⟩ ::
      braced 0 (⟨1, "public static " ++ mainType p ++ " Main()"⟩ :: braced 1 (mainLines p))) := by
    refine OpenLines.cons ?_ (openLines_braced (OpenLines.cons ?_ ?_) 0)
    · exact hclass
    · exact htype
    · exact openLines_braced (openLines_mainLines hnamed hp) 1
  match i, hl with
  | 0, hl =>
    cases hl
    exact (by decide : OpensLine "using System;".toList)
  | 1, hl => exact (Option.some.inj hl).symm
  | 2, hl =>
    cases hl
    exact hspace
  | 3, hl => exact (Option.some.inj hl).symm
  | i + 4, hl =>
    rw [if_neg (by omega)]
    exact hrest l (List.mem_of_getElem? hl)

theorem clean_lines {p : Program} (hp : LegibleBlock Plain p) : ∀ l ∈ lines {} p, l.Clean := by
  intro l hl
  obtain ⟨i, hi⟩ := List.getElem?_of_mem hl
  have hopens := opensLine_lines (fun _ hn => opensLine_of_isAtom hn.1)
    ⟨by decide, by decide⟩ hp hi
  split at hopens
  · rw [hopens]
    exact ⟨by decide, by decide⟩
  · exact clean_of_opensLine hopens

end Bukvar.Listing
