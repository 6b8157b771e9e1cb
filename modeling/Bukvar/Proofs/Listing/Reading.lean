import Bukvar.Proofs.Listing.Spelling

/-!
# Written expressions are words of the grammar

Parentheses that a tree does not record are written around every operation but an assignment, and
around an assignment that is an operand. So the units of a written expression are a word of the
grammar whose tree is the expression, however its leaves are taken: a `Reading` says which symbol
a unit is and how a leaf is derived from it.

* `exists_operation`: an operation between two primaries.
* `Reading.exists_derivation`: a written expression is derived as itself.
-/

namespace Bukvar.Listing

open Grammar (Symbol Derivation Target)

/-- A primary as an expression. -/
def whole (d : Derivation .primary) : Derivation .assignment :=
  .ofComparison (.ofSum (.ofProduct (.ofPrimary d)))

theorem exists_operation {op : Operator} (hop : op ≠ .assign) (lhs rhs : Derivation .primary) :
    ∃ d : Derivation .assignment, d.word = lhs.word ++ .mark (.operator op) :: rhs.word ∧
      d.tree = .binary op lhs.tree rhs.tree (.empty 0) := by
  have hcompare : op.isComparison = true → ∃ d : Derivation .assignment,
      d.word = lhs.word ++ .mark (.operator op) :: rhs.word ∧
        d.tree = .binary op lhs.tree rhs.tree (.empty 0) := fun h =>
    ⟨.ofComparison (.compare (.ofProduct (.ofPrimary lhs)) op h (.ofProduct (.ofPrimary rhs))),
      rfl, rfl⟩
  have hadd : op.isAdditive = true → ∃ d : Derivation .assignment,
      d.word = lhs.word ++ .mark (.operator op) :: rhs.word ∧
        d.tree = .binary op lhs.tree rhs.tree (.empty 0) := fun h =>
    ⟨.ofComparison (.ofSum (.add (.ofProduct (.ofPrimary lhs)) op h (.ofPrimary rhs))), rfl, rfl⟩
  have hmultiply : op.isMultiplicative = true → ∃ d : Derivation .assignment,
      d.word = lhs.word ++ .mark (.operator op) :: rhs.word ∧
        d.tree = .binary op lhs.tree rhs.tree (.empty 0) := fun h =>
    ⟨.ofComparison (.ofSum (.ofProduct (.multiply (.ofPrimary lhs) op h rhs))), rfl, rfl⟩
  cases op with
  | assign => exact absurd rfl hop
  | add | subtract => exact hadd rfl
  | multiply | divide => exact hmultiply rfl
  | equals | less | lessOrEqual | greater | greaterOrEqual => exact hcompare rfl

/-- A way to take units for symbols and leaves for primaries. Parentheses, signs and names stand
for themselves. -/
structure Reading where
  symbolOf : List Char → Symbol
  leaf : Expr → Derivation .primary
  symbolOf_open : symbolOf ['('] = .mark .leftParen
  symbolOf_close : symbolOf [')'] = .mark .rightParen
  symbolOf_sign (op : Operator) : symbolOf op.symbol.toList = .mark (.operator op)
  leaf_ident (id : Ident) (span : Span) : leaf (.ident id span) = .name id.name

namespace Reading

variable (r : Reading)

/-- Every leaf of the expression is derived from the unit that it is written with. -/
def Covers : Expr → Prop
  | .binary _ lhs rhs _ => Covers lhs ∧ Covers rhs
  | e => (r.leaf e).word = [r.symbolOf (exprText e).toList]

/-- The expression with its leaves as they are read. -/
def tree : Expr → Expr
  | .binary op lhs rhs _ => .binary op (tree lhs) (tree rhs) (.empty 0)
  | e => (r.leaf e).tree

/-- The units are a word whose tree is the expression as it is read. -/
def Derives (l : Grammar.Level) (e : Expr) (units : List (List Char)) : Prop :=
  ∃ d : Derivation l, d.word = units.map r.symbolOf ∧ d.tree = r.tree e

variable {r}

theorem Derives.whole {e : Expr} {units : List (List Char)} (h : r.Derives .primary e units) :
    r.Derives .assignment e units := by
  obtain ⟨d, hword, htree⟩ := h
  exact ⟨Listing.whole d, hword, htree⟩

theorem Derives.group {e : Expr} {units : List (List Char)} (h : r.Derives .assignment e units) :
    r.Derives .primary e (['('] :: units ++ [[')']]) := by
  obtain ⟨d, hword, htree⟩ := h
  refine ⟨.group d, ?_, htree⟩
  change Grammar.grouped d.word = _
  simp [Grammar.grouped, hword, r.symbolOf_open, r.symbolOf_close]

theorem derives_leaf {e : Expr} (hleaf : isLeaf e = true) (hc : r.Covers e) :
    r.Derives .primary e (exprUnits e) := by
  refine ⟨r.leaf e, ?_, ?_⟩
  · rw [exprUnits_leaf hleaf]
    cases e with
    | binary => cases hleaf
    | _ => exact hc
  · cases e with
    | binary => cases hleaf
    | _ => rfl

theorem derives_assignment {lhs rhs : Expr} (span : Span) (hident : lhs.isIdent = true)
    (hc : r.Covers lhs) (hrhs : r.Derives .assignment rhs (exprUnits rhs)) :
    r.Derives .assignment (.binary .assign lhs rhs span)
      (exprUnits (.binary .assign lhs rhs span)) := by
  cases lhs with
  | ident id idSpan =>
    obtain ⟨d, hword, htree⟩ := hrhs
    have hname : (r.leaf (.ident id idSpan)).word = [r.symbolOf id.name.toList] := hc
    rw [r.leaf_ident] at hname
    have hsign : r.symbolOf ['='] = _ := r.symbolOf_sign .assign
    refine ⟨.assign (.name id.name) d, ?_, ?_⟩
    · change Target.word _ ++ _ :: d.word = List.map _ ([id.name.toList] ++ ['='] :: exprUnits rhs)
      have hrest : List.map r.symbolOf (['='] :: exprUnits rhs) =
          .mark (.operator .assign) :: d.word := by
        rw [List.map_cons, hsign, hword]
      rw [List.map_append, hrest]
      exact congrArg (· ++ _) hname
    · change Expr.binary _ _ d.tree _ = Expr.binary _ (r.leaf (.ident id idSpan)).tree _ _
      rw [htree, r.leaf_ident]
      rfl
  | _ => cases hident

theorem derives_operand {e : Expr} (hassignment : r.Derives .assignment e (exprUnits e))
    (hprimary : isAssignment e = false → r.Derives .primary e (exprUnits e)) :
    r.Derives .primary e (operandUnits e (exprUnits e)) := by
  unfold operandUnits
  split
  next => exact hassignment.group
  next h => exact hprimary (by simpa using h)

theorem derives_operation {op : Operator} (hop : op ≠ .assign) {lhs rhs : Expr} (span : Span)
    (hlhs : r.Derives .primary lhs (operandUnits lhs (exprUnits lhs)))
    (hrhs : r.Derives .primary rhs (operandUnits rhs (exprUnits rhs))) :
    r.Derives .primary (.binary op lhs rhs span) (exprUnits (.binary op lhs rhs span)) := by
  obtain ⟨dl, hwordl, htreel⟩ := hlhs
  obtain ⟨dr, hwordr, htreer⟩ := hrhs
  obtain ⟨d, hword, htree⟩ := exists_operation hop dl dr
  have hinner : r.Derives .assignment (.binary op lhs rhs span)
      (operandUnits lhs (exprUnits lhs) ++
        op.symbol.toList :: operandUnits rhs (exprUnits rhs)) := by
    refine ⟨d, ?_, ?_⟩
    · simp [hword, hwordl, hwordr, r.symbolOf_sign]
    · rw [htree, htreel, htreer]
      rfl
  have hgroup := hinner.group
  rw [exprUnits_operation hop]
  simpa using hgroup

/-- A written expression is derived as itself. One that is no assignment is a primary, since it
is a leaf or has parentheses around it. -/
theorem exists_derivation {named : String → Prop} {e : Expr} (he : e.Legible named)
    (hc : r.Covers e) :
    r.Derives .assignment e (exprUnits e) ∧
      (isAssignment e = false → r.Derives .primary e (exprUnits e)) := by
  induction e with
  | binary op lhs rhs span ihl ihr =>
    obtain ⟨hl, hlp⟩ := ihl he.1 hc.1
    obtain ⟨hr, hrp⟩ := ihr he.2.1 hc.2
    by_cases hop : op = .assign
    · subst hop
      exact ⟨derives_assignment span (he.2.2 rfl) hc.1 hr, nofun⟩
    · have := derives_operation hop span (derives_operand hl hlp) (derives_operand hr hrp)
      exact ⟨this.whole, fun _ => this⟩
  | _ => exact ⟨(derives_leaf rfl hc).whole, fun _ => derives_leaf rfl hc⟩

end Reading

end Bukvar.Listing
