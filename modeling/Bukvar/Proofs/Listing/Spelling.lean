import Bukvar.Proofs.Decimal.RoundTrip
import Bukvar.Proofs.Grammar.Legible
import Bukvar.Proofs.Token.Units

/-!
# The units of written expressions

The text of an expression is split into the units that it was put together from: signs,
parentheses and one unit for every leaf. A leaf is an `IsAtom`: a word that holds no quote, or a
closed string. A name that starts with a quote is not, since a quote further behind can close it.

* `isNumeric_of_mem_text`: what a floating-point number is written with.
* `isAtom_exprText`: the text of a leaf is one unit.
* `units_exprText`: the units of the text of an expression.
-/

namespace Bukvar

/-! ## Atoms -/

namespace Token

/-- A unit whose end does not depend on what follows it, except that a word needs an end. -/
inductive IsAtom : List Char → Prop
  | word {w : List Char} (hne : w ≠ []) (h : ∀ c ∈ w, endsWord c = false) : IsAtom w
  | quoted {body : List Char} (h : ∀ c ∈ body, endsQuote c = false) :
    IsAtom ('"' :: body ++ ['"'])

theorem units_atom {u rest : List Char} (hu : IsAtom u) (hr : Separated rest) :
    units (u ++ rest) = u :: units rest := by
  cases hu with
  | word hne h => exact units_word hne h hr
  | quoted h =>
    rw [List.append_assoc]
    exact units_quoted h rest

/-- A unit that neither stands alone nor starts with a quote. -/
theorem isAtom_of_isUnit {u : List Char} (hu : IsUnit u) (hs : ∀ c, isStandalone c = true → u ≠ [c])
    (hq : u.head? ≠ some '"') : IsAtom u := by
  cases hu with
  | standalone h => exact absurd rfl (hs _ h)
  | quoted h => exact absurd rfl hq
  | @word c cs hb hs' h =>
    refine .word nofun ?_
    intro x hx
    rcases List.mem_cons.mp hx with rfl | hx
    · have hne : x ≠ '"' := by
        rintro rfl
        exact hq rfl
      simp [endsWord, hb, hs', hne]
    · exact h x hx

theorem ne_standalone_of_name {n : String} (hname : classify n = .name) {c : Char}
    (hc : isStandalone c = true) : n.toList ≠ [c] := by
  intro hn
  rw [← String.ofList_toList (s := n), hn] at hname
  simp only [isStandalone, Bool.or_eq_true, decide_eq_true_eq] at hc
  rcases hc with (rfl | rfl) | rfl <;> revert hname <;> decide

theorem isAtom_of_name {n : String} (hunit : IsUnit n.toList) (hname : classify n = .name)
    (hquote : n.toList.head? ≠ some '"') : IsAtom n.toList :=
  isAtom_of_isUnit hunit (fun _ hc => ne_standalone_of_name hname hc) hquote

theorem IsAtom.ne_standalone {u : List Char} (h : IsAtom u) {c : Char}
    (hc : isStandalone c = true) : u ≠ [c] := by
  intro hu
  cases h with
  | word hne h =>
    have := h c (hu ▸ List.mem_singleton_self c)
    simp [endsWord, hc] at this
  | quoted h => simp at hu

/-- Whether the characters are a word that holds no quote. -/
def isWord (w : List Char) : Bool :=
  !w.isEmpty && w.all (!endsWord ·)

theorem isAtom_of_isWord {w : List Char} (h : isWord w = true) : IsAtom w := by
  simp only [isWord, Bool.and_eq_true, Bool.not_eq_true', List.isEmpty_eq_false_iff,
    List.all_eq_true] at h
  exact .word h.1 h.2

theorem isAtom_symbol (op : Operator) : IsAtom op.symbol.toList :=
  isAtom_of_isWord (by cases op <;> decide)

end Token

/-! ## Numbers -/

namespace Decimal

/-- The characters that numbers are written with. -/
def isNumeric (c : Char) : Bool :=
  c.isDigit || c = '.' || c = '-' || c = 'e'

theorem endsWord_of_isDigit {c : Char} (h : c.isDigit = true) : Token.endsWord c = false := by
  have hrange : 48 ≤ c.toNat ∧ c.toNat ≤ 57 := by
    simpa [Char.isDigit, UInt32.le_iff_toNat_le] using h
  have hblank : Text.isBlank c = false := by
    simp only [Text.isBlank, Text.blanks, Text.CodePoints.covers, ite_eq_left_iff,
      Bool.or_eq_false_iff, decide_eq_false_iff_not]
    omega
  have hne : ∀ d : Char, d.toNat < 48 ∨ 57 < d.toNat → c ≠ d := by
    rintro d hd rfl
    omega
  simp [Token.endsWord, Token.isStandalone, hblank, hne ';' (by decide), hne '(' (by decide),
    hne ')' (by decide), hne '"' (by decide)]

theorem endsWord_of_isNumeric {c : Char} (h : isNumeric c = true) : Token.endsWord c = false := by
  simp only [isNumeric, Bool.or_eq_true, decide_eq_true_eq] at h
  rcases h with ((h | rfl) | rfl) | rfl
  · exact endsWord_of_isDigit h
  · decide
  · decide
  · decide

theorem isNumeric_of_mem_digits {n : Nat} {c : Char} (h : c ∈ digits n) : isNumeric c = true := by
  have := List.all_eq_true.mp (isDigit_digits n) c h
  simp [isNumeric, this]

theorem isNumeric_of_mem_integerText {value : Int} {c : Char}
    (h : c ∈ (integerText value).toList) : isNumeric c = true := by
  cases value with
  | ofNat n =>
    rw [toList_integerText_ofNat] at h
    exact isNumeric_of_mem_digits h
  | negSucc n =>
    rw [toList_integerText_negSucc] at h
    rcases List.mem_cons.mp h with rfl | h
    · decide
    · exact isNumeric_of_mem_digits h

theorem isNumeric_of_mem_significantDigits {n : Nat} {c : Char} (h : c ∈ significantDigits n) :
    isNumeric c = true := by
  obtain ⟨zeros, hzeros⟩ := exists_significantDigits n
  apply @isNumeric_of_mem_digits n c
  rw [hzeros]
  exact List.mem_append_left _ h

theorem isNumeric_of_mem_layOut {ds : List Char} (hds : ∀ c ∈ ds, isNumeric c = true)
    {position : Int} {c : Char} (h : c ∈ layOut ds position) : isNumeric c = true := by
  have hzero : isNumeric '0' = true := by decide
  have hpoint : isNumeric '.' = true := by decide
  unfold layOut at h
  split at h
  · simp only [List.mem_append, List.mem_cons, List.not_mem_nil, or_false] at h
    rcases h with ((rfl | rfl) | h) | h
    · exact hzero
    · exact hpoint
    · exact List.eq_of_mem_replicate h ▸ hzero
    · exact hds c h
  · simp only [List.mem_append, List.mem_cons, List.not_mem_nil, or_false] at h
    rcases h with ((h | h) | rfl) | h
    · exact hds c (List.mem_of_mem_take h)
    · exact List.eq_of_mem_replicate h ▸ hzero
    · exact hpoint
    · split at h
      · exact List.mem_singleton.mp h ▸ hzero
      · exact hds c (List.mem_of_mem_drop h)

theorem isNumeric_of_mem_layOutPower {ds : List Char} (hds : ∀ c ∈ ds, isNumeric c = true)
    {position : Int} {c : Char} (h : c ∈ layOutPower ds position) : isNumeric c = true := by
  simp only [layOutPower, List.mem_append, List.mem_cons, List.not_mem_nil, or_false] at h
  rcases h with ((h | h) | rfl) | h
  · exact hds c (List.mem_of_mem_take h)
  · split at h
    · cases h
    · rcases List.mem_cons.mp h with rfl | h
      · decide
      · exact hds c (List.mem_of_mem_drop h)
  · decide
  · exact isNumeric_of_mem_integerText h

theorem isNumeric_of_mem_written {s : Scientific} {c : Char} (h : c ∈ s.written) :
    isNumeric c = true := by
  unfold Scientific.written at h
  dsimp only at h
  split at h
  · exact isNumeric_of_mem_layOut (fun _ => isNumeric_of_mem_significantDigits) h
  · exact isNumeric_of_mem_layOutPower (fun _ => isNumeric_of_mem_significantDigits) h

theorem isNumeric_of_mem_text {x : Binary64} (hfinite : x.isFinite = true) {c : Char}
    (h : c ∈ x.text.toList) : isNumeric c = true := by
  have hsign : c ∈ (if x.negative then ['-'] else []) → isNumeric c = true := by
    intro hc
    split at hc
    · exact List.mem_singleton.mp hc ▸ by decide
    · cases hc
  by_cases h0 : x.magnitude = 0
  · rw [toList_text_zero h0, List.mem_append] at h
    rcases h with h | h
    · exact hsign h
    · have hall : ['0', '.', '0'].all isNumeric = true := by decide
      exact List.all_eq_true.mp hall c h
  · rw [toList_text hfinite h0, List.mem_append] at h
    rcases h with h | h
    · exact hsign h
    · exact isNumeric_of_mem_written h

theorem mem_written (s : Scientific) : '.' ∈ s.written ∨ 'e' ∈ s.written := by
  unfold Scientific.written
  dsimp only
  split
  · apply Or.inl
    rw [layOut]
    split <;> simp
  · apply Or.inr
    simp [layOutPower]

/-- A floating-point number is never written like an integer. -/
theorem mem_text {x : Binary64} (hfinite : x.isFinite = true) :
    '.' ∈ x.text.toList ∨ 'e' ∈ x.text.toList := by
  by_cases h0 : x.magnitude = 0
  · simp [toList_text_zero h0]
  · rw [toList_text hfinite h0]
    exact (mem_written _).imp (List.mem_append_right _) (List.mem_append_right _)

end Decimal

/-! ## Expressions -/

namespace Listing

open Token (IsAtom units units_atom Separated separated_cons units_blank units_standalone)

variable {named : String → Prop}

theorem isAtom_integerText (value : Int) : IsAtom (Decimal.integerText value).toList := by
  refine .word ?_ fun c hc =>
    Decimal.endsWord_of_isNumeric (Decimal.isNumeric_of_mem_integerText hc)
  intro hnil
  have := Decimal.isInteger_integerText value
  rw [hnil] at this
  cases this

theorem isAtom_doubleText {x : Decimal.Binary64} (h : x.isFinite = true) :
    IsAtom x.text.toList := by
  refine .word ?_ fun c hc => Decimal.endsWord_of_isNumeric (Decimal.isNumeric_of_mem_text h hc)
  rcases Decimal.mem_text h with hmem | hmem
  · exact List.ne_nil_of_mem hmem
  · exact List.ne_nil_of_mem hmem

/-- The units of an operand with the given units. -/
def operandUnits (operand : Expr) (units : List (List Char)) : List (List Char) :=
  if isAssignment operand then ['('] :: units ++ [[')']] else units

/-- The units that an expression is written with. -/
def exprUnits : Expr → List (List Char)
  | .binary .assign lhs rhs _ => exprUnits lhs ++ ['='] :: exprUnits rhs
  | .binary op lhs rhs _ =>
    ['('] :: (operandUnits lhs (exprUnits lhs) ++ op.symbol.toList ::
      (operandUnits rhs (exprUnits rhs) ++ [[')']]))
  | e => [(exprText e).toList]

/-- Whether an expression has no parts. -/
def isLeaf : Expr → Bool
  | .binary .. => false
  | _ => true

theorem exprUnits_leaf {e : Expr} (h : isLeaf e = true) : exprUnits e = [(exprText e).toList] := by
  cases e with
  | binary => cases h
  | _ => rfl

theorem exprUnits_operation {op : Operator} (hop : op ≠ .assign) (lhs rhs : Expr) (span : Span) :
    exprUnits (.binary op lhs rhs span) =
      ['('] :: (operandUnits lhs (exprUnits lhs) ++ op.symbol.toList ::
        (operandUnits rhs (exprUnits rhs) ++ [[')']])) := by
  cases op with
  | assign => exact absurd rfl hop
  | _ => rfl

theorem exprText_operation {op : Operator} (hop : op ≠ .assign) (lhs rhs : Expr) (span : Span) :
    exprText (.binary op lhs rhs span) =
      parenthesized (operandText lhs (exprText lhs) ++ " " ++ op.symbol ++ " " ++
        operandText rhs (exprText rhs)) := by
  cases op with
  | assign => exact absurd rfl hop
  | _ => rfl

/-- The text of a leaf is one unit. -/
theorem isAtom_exprText (hnamed : ∀ n, named n → IsAtom n.toList) {e : Expr}
    (hleaf : isLeaf e = true) (he : e.Legible named) : IsAtom (exprText e).toList := by
  cases e with
  | binary => cases hleaf
  | ident id span => exact hnamed _ he
  | integer value span => exact isAtom_integerText value
  | double value span => exact isAtom_doubleText he
  | string value span =>
    have := @IsAtom.quoted value.toList he
    simpa [exprText] using this

theorem units_sign {op : Operator} (rest : List Char) :
    units (' ' :: (op.symbol.toList ++ ' ' :: rest)) = op.symbol.toList :: units rest := by
  have hblank : Text.isBlank ' ' = true := by decide
  rw [units_blank _ hblank, units_atom (Token.isAtom_symbol op) (separated_cons (by decide) _),
    units_blank _ hblank]

/-- Operands are split like the texts in them. -/
theorem units_operandText {e : Expr} {text : String} {us : List (List Char)}
    (h : ∀ rest, Separated rest → units (text.toList ++ rest) = us ++ units rest)
    {rest : List Char} (hr : Separated rest) :
    units ((operandText e text).toList ++ rest) = operandUnits e us ++ units rest := by
  unfold operandText operandUnits
  split
  · have hopen : (parenthesized text).toList ++ rest = '(' :: (text.toList ++ ')' :: rest) := by
      simp [parenthesized]
    rw [hopen, units_standalone (by decide), h _ (separated_cons (by decide) _),
      units_standalone (by decide)]
    simp
  · exact h rest hr

theorem units_leaf (hnamed : ∀ n, named n → IsAtom n.toList) {e : Expr} (hleaf : isLeaf e = true)
    (he : e.Legible named) {rest : List Char} (hr : Separated rest) :
    units ((exprText e).toList ++ rest) = exprUnits e ++ units rest := by
  rw [units_atom (isAtom_exprText hnamed hleaf he) hr, exprUnits_leaf hleaf]
  rfl

/-- The text of an expression is split into the units that it was put together from. -/
theorem units_exprText (hnamed : ∀ n, named n → IsAtom n.toList) {e : Expr}
    (he : e.Legible named) {rest : List Char} (hr : Separated rest) :
    units ((exprText e).toList ++ rest) = exprUnits e ++ units rest := by
  induction e generalizing rest with
  | binary op lhs rhs span ihl ihr =>
    obtain ⟨hlhs, hrhs, -⟩ := he
    by_cases hop : op = .assign
    · subst hop
      have htext : (exprText (.binary .assign lhs rhs span)).toList ++ rest =
          (exprText lhs).toList ++ ' ' :: (Operator.assign.symbol.toList ++ ' ' ::
            ((exprText rhs).toList ++ rest)) := by
        simp [exprText, Operator.symbol]
      rw [htext, ihl hlhs (separated_cons (by decide) _), units_sign, ihr hrhs hr]
      simp [exprUnits, Operator.symbol]
    · have htext : (exprText (.binary op lhs rhs span)).toList ++ rest =
          '(' :: ((operandText lhs (exprText lhs)).toList ++ ' ' :: (op.symbol.toList ++ ' ' ::
            ((operandText rhs (exprText rhs)).toList ++ ')' :: rest))) := by
        simp [exprText_operation hop, parenthesized]
      rw [htext, units_standalone (by decide),
        units_operandText (fun _ => ihl hlhs) (separated_cons (by decide) _), units_sign,
        units_operandText (fun _ => ihr hrhs) (separated_cons (by decide) _),
        units_standalone (by decide), exprUnits_operation hop]
      simp
  | _ => exact units_leaf hnamed rfl he hr

end Listing

end Bukvar
