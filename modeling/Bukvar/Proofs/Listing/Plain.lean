import Bukvar.Proofs.Grammar.Uniqueness
import Bukvar.Proofs.Listing.Normal
import Bukvar.Proofs.Listing.Reading

/-!
# Expressions whose leaves are taken as names

In a listing a number, a string or a name is just a unit that is neither a sign nor a parenthesis.
If all of them are taken as names, the units of an expression are still a word of the grammar, and
since a word has one derivation only, they show the expression up to the kinds of its leaves.

* `written_unique`: expressions with the same text.
* `exists_head_exprUnits`, `exprUnits_ne_call`: what the units of an expression are not.
-/

namespace Bukvar.Listing

open Grammar (Symbol Derivation)
open Token (IsAtom)

/-- The operator that is spelled by a unit. -/
def signOf? (unit : List Char) : Option Operator :=
  Operator.all.find? (·.symbol.toList = unit)

/-- A unit that is taken for a parenthesis, a sign or else for a name. -/
def plainSymbol (unit : List Char) : Symbol :=
  if unit = ['('] then .mark .leftParen
  else if unit = [')'] then .mark .rightParen
  else
    match signOf? unit with
    | some op => .mark (.operator op)
    | none => ⟨.name, String.ofList unit⟩

/-- A reading that takes every leaf for a name. -/
def plainReading : Reading where
  symbolOf := plainSymbol
  leaf e := .name (exprText e)
  symbolOf_open := by decide
  symbolOf_close := by decide
  symbolOf_sign op := by cases op <;> decide
  leaf_ident _ _ := rfl

/-- A text that is one unit and no sign. -/
def Plain (text : String) : Prop :=
  IsAtom text.toList ∧ ∀ op : Operator, text ≠ op.symbol

theorem plainSymbol_of_plain {text : String} (h : Plain text) :
    plainSymbol text.toList = ⟨.name, text⟩ := by
  obtain ⟨hatom, hsign⟩ := h
  have hnone : signOf? text.toList = none := by
    rw [signOf?, List.find?_eq_none]
    intro op _ hop
    exact hsign op (String.toList_inj.mp (of_decide_eq_true hop)).symm
  rw [plainSymbol, if_neg (hatom.ne_standalone rfl), if_neg (hatom.ne_standalone rfl), hnone,
    String.ofList_toList]

theorem plain_exprText {e : Expr} (hleaf : isLeaf e = true) (he : e.Legible Plain) :
    Plain (exprText e) := by
  refine ⟨isAtom_exprText (fun _ => And.left) hleaf he, ?_⟩
  intro op hop
  cases e with
  | binary => cases hleaf
  | ident id span => exact he.2 op hop
  | integer value span =>
    have := Decimal.isInteger_integerText value
    rw [show Decimal.integerText value = _ from hop] at this
    revert this
    cases op <;> decide
  | double value span =>
    have := Decimal.mem_text he
    rw [show value.text = _ from hop] at this
    revert this
    cases op <;> decide
  | string value span =>
    have := congrArg (fun t => t.toList.head?) hop
    revert this
    cases op <;> simp [exprText, Operator.symbol]

theorem symbol_leaf {e : Expr} (hleaf : isLeaf e = true) (he : e.Legible Plain) :
    [(⟨.name, exprText e⟩ : Symbol)] = [plainSymbol (exprText e).toList] := by
  rw [plainSymbol_of_plain (plain_exprText hleaf he)]

theorem covers_plainReading {e : Expr} (he : e.Legible Plain) : plainReading.Covers e := by
  induction e with
  | binary op lhs rhs span ihl ihr => exact ⟨ihl he.1, ihr he.2.1⟩
  | ident id span => exact symbol_leaf rfl he
  | integer value span => exact symbol_leaf rfl he
  | double value span => exact symbol_leaf rfl he
  | string value span => exact symbol_leaf rfl he

theorem tree_plainReading (e : Expr) : plainReading.tree e = written e := by
  induction e with
  | binary op lhs rhs span ihl ihr => rw [Reading.tree, ihl, ihr, written]
  | _ => rfl

theorem exists_plain {e : Expr} (he : e.Legible Plain) :
    ∃ d : Derivation .assignment, d.word = (exprUnits e).map plainSymbol ∧ d.tree = written e := by
  rw [← tree_plainReading]
  exact (Reading.exists_derivation he (covers_plainReading he)).1

theorem units_plain {e : Expr} (he : e.Legible Plain) {rest : List Char}
    (hr : Token.Separated rest) :
    Token.units ((exprText e).toList ++ rest) = exprUnits e ++ Token.units rest :=
  units_exprText (fun _ => And.left) he hr

/-- The text of an expression shows the expression up to the kinds of its leaves. -/
theorem written_unique {e e' : Expr} (he : e.Legible Plain) (he' : e'.Legible Plain)
    (h : exprText e = exprText e') : written e = written e' := by
  have hunits : exprUnits e = exprUnits e' := by
    have := units_plain he Token.separated_nil
    rw [h, units_plain he' Token.separated_nil] at this
    exact (List.append_cancel_right this).symm
  obtain ⟨d, hword, htree⟩ := exists_plain he
  obtain ⟨d', hword', htree'⟩ := exists_plain he'
  have hd : d = d' := d.eq_of_word_eq d' (by rw [hword, hword', hunits])
  rw [← htree, ← htree', hd]

/-- An expression does not start with a sign. -/
theorem exists_head_exprUnits {e : Expr} (he : e.Legible Plain) :
    ∃ u us, exprUnits e = u :: us ∧ u ≠ ['='] := by
  obtain ⟨d, hword, -⟩ := exists_plain he
  have hseamed := d.seamed_word
  rw [hword] at hseamed
  cases hunits : exprUnits e with
  | nil => exact absurd (by rw [hunits]; rfl) hseamed.ne_nil
  | cons u us =>
    refine ⟨u, us, rfl, ?_⟩
    rintro rfl
    exact hseamed.first _ _ (by rw [hunits, List.map_cons]) ⟨.assign, by decide⟩

/-- A name is not followed by a parenthesis. -/
theorem exprUnits_ne_call {e : Expr} (he : e.Legible Plain) {callee : String}
    (hcallee : plainSymbol callee.toList = ⟨.name, callee⟩) (us : List (List Char)) :
    exprUnits e ≠ callee.toList :: ['('] :: us := by
  intro hunits
  obtain ⟨d, hword, -⟩ := exists_plain he
  have hseam := d.seamed_word.seam [] ⟨.name, callee⟩ (.mark .leftParen) (us.map plainSymbol) (by
    rw [hword, hunits, List.map_cons, List.map_cons, hcallee]
    rfl) rfl
  rcases hseam with ⟨op, hop⟩ | ⟨op, hop⟩ <;> cases hop

end Bukvar.Listing
