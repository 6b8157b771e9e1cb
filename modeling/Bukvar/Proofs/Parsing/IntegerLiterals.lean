import Bukvar.Proofs.Decimal.Shape
import Bukvar.Proofs.Listing.Spelling
import Bukvar.Proofs.Parsing.Step
import Bukvar.Proofs.Parsing.Source

/-!
# Integer literals are exact

A word of digits, with or without a minus sign before them, stands for an integer of any size. Read
as an expression it is that integer if thirty-two bits hold it, and is refused as a whole otherwise.
The reader multiplies and adds within thirty-two bits; where one of its steps leaves them, the
integer that the whole word denotes lies outside too.

* `readInteger_eq`: the value of a literal, or that it has none.
* `parseExpression_integer`: the expression that is read from it.
* `ofSource_unit`: the token of a source that is a single unit.
* `integerLiteral_exact`: both, and the literal that is written for the integer.
-/

namespace Bukvar

open Token (Buffer Stream classify isDigits isInteger)

/-! ## What a literal denotes -/

namespace Decimal

/-- The integer that a word denotes in base ten. -/
inductive Denotes : List Char → Int → Prop
  | plain {ds : List Char} (hne : ds ≠ []) (hds : ds.all Char.isDigit = true) :
    Denotes ds (Nat.ofDigitChars 10 ds 0)
  | negated {ds : List Char} (hne : ds ≠ []) (hds : ds.all Char.isDigit = true) :
    Denotes ('-' :: ds) (-(Nat.ofDigitChars 10 ds 0 : Int))

/-- A word denotes one integer at most. -/
theorem Denotes.unique {cs : List Char} {v v' : Int} (h : Denotes cs v) (h' : Denotes cs v') :
    v = v' := by
  cases h with
  | plain hne hds =>
    cases h' with
    | plain => rfl
    | negated => cases hds
  | negated hne hds =>
    cases h' with
    | plain hne' hds' => cases hds'
    | negated => rfl

theorem denotes_integerOf {text : String} (h : isInteger text.toList = true) :
    Denotes text.toList (integerOf text) := by
  have hdigits : ∀ ds : List Char, isDigits ds = true → ds ≠ [] ∧ ds.all Char.isDigit = true := by
    intro ds hds
    simpa [isDigits] using hds
  unfold integerOf
  rcases isInteger_cases h with ⟨ds, hcs, hds⟩ | hds
  · obtain ⟨hne, hall⟩ := hdigits ds hds
    rw [hcs]
    change Denotes ('-' :: ds) (-(ofDigits ds : Int))
    rw [ofDigits_eq hall]
    exact .negated hne hall
  · obtain ⟨hne, hall⟩ := hdigits _ hds
    split
    next heq => exact absurd heq (isDigits_ne_minus hds)
    next =>
      rw [ofDigits_eq hall]
      exact .plain hne hall

/-- The reader of integers decides by the integer as a whole. -/
theorem readInteger_eq {text : String} (h : isInteger text.toList = true) :
    readInteger text =
      if InRange (integerOf text) then .ok (integerOf text) else .error .outOfRange := by
  split
  next hrange => exact (readInteger_eq_ok_iff h).mpr ⟨hrange, rfl⟩
  next hrange =>
    cases hread : readInteger text with
    | ok value => exact absurd ((readInteger_eq_ok_iff h).mp hread).1 hrange
    | error e => rw [outOfRange_of_readInteger h hread]

end Decimal

/-! ## Reading one -/

namespace Parsing

open Decimal (InRange integerOf)

theorem bind_of_error {α β : Type} {x : Parser α} {f : α → Parser β} {e : Failure} {s r : State}
    (h : x s = .error e r) : (x >>= f) s = .error e r := by
  change EStateM.bind x f s = _
  unfold EStateM.bind
  rw [h]

variable {ds : List (String × VarType)} {s : Stream} {t u : Token} {rest : List Token}

/-- An integer literal before a token that is no operator is an expression of its own. -/
theorem run_expression_integer (hs : s.ahead = t :: u :: rest) (ht : t.kind = .integerLiteral)
    (hu : ∀ op, u.kind ≠ .operator op) :
    expression ⟨s, ds⟩ =
      match Decimal.readInteger t.text with
      | .ok value => .ok (.integer value t.span) ⟨s.step, ds⟩
      | .error e => .error (.problem ⟨t.span, .ofLiteralError e⟩) ⟨s.step, ds⟩ := by
  have hremaining : s.remaining = rest.length + 2 := by
    rw [← Stream.length_ahead, hs]
    rfl
  have hoperand : ∀ inner, operand inner t =
      literal t.span (Decimal.readInteger t.text) .integer := by
    intro inner
    rw [operand, ht]
  change expressionWithin (s.remaining + 1) 0 ⟨s, ds⟩ = _
  rw [hremaining, expressionWithin, bind_of_ok (run_advance hs (by simp [ht])), hoperand]
  cases Decimal.readInteger t.text with
  | ok value =>
    rw [bind_of_ok (show literal t.span (.ok value) Expr.integer ⟨s.step, ds⟩ = _ from rfl),
      run_operators_stop]
    intro op hop
    rw [Stream.current_of_ahead (Stream.ahead_step hs)] at hop
    exact absurd hop (hu op)
  | error e => exact bind_of_error rfl

/-- Read as an expression, an integer literal is the integer that it denotes, at its own place, if
that is in range. Otherwise it is to blame. -/
theorem parseExpression_integer {w : String} (hw : isInteger w.toList = true) (span : Span)
    (length : Nat) :
    (parseExpression (.ofTokens [⟨.integerLiteral, w, span⟩] length)).outcome =
      if InRange (integerOf w) then .ok (.integer (integerOf w) span)
      else .error (.problem ⟨span, .literalOutOfRange⟩) := by
  obtain ⟨s, hstream, hahead, -⟩ := Token.exists_stream [⟨.integerLiteral, w, span⟩] length
  have hexpression := @run_expression_integer [] s _ _ _ hahead rfl nofun
  have hend : s.step.ahead = [Token.endOfInput length] := Stream.ahead_step hahead
  rw [Decimal.readInteger_eq hw] at hexpression
  unfold parseExpression parse
  rw [hstream]
  by_cases hrange : InRange (integerOf w)
  · rw [if_pos hrange] at hexpression ⊢
    have hrun : expressionOnly ⟨s, []⟩ = .ok (.integer (integerOf w) span) ⟨s.step, []⟩ := by
      unfold expressionOnly
      rw [bind_of_ok hexpression, bind_of_ok (run_expect_end hend rfl)]
      rfl
    simp only [hrun]
  · rw [if_neg hrange] at hexpression ⊢
    have hrun : expressionOnly ⟨s, []⟩ = .error _ _ := bind_of_error hexpression
    simp only [hrun]
    rfl

end Parsing

/-! ## Its token -/

namespace Token

theorem lexemes_unit_alone {u : List Char} (h : IsUnit u) (offset : Nat) :
    lexemes offset u = [⟨offset, u⟩] := by
  have hunit : UnitBefore [] u := h.unitBefore (.inl rfl)
  obtain ⟨c, cs, rfl, hblank⟩ := hunit.exists_cons
  have hcut := cutUnit_append hunit
  rw [List.append_nil] at hcut
  rw [lexemes_unit offset cs hblank, hcut, lexemes_nil]

/-- A source that is a single unit has one token. -/
theorem ofSource_unit {w : String} (hunit : IsUnit w.toList) (hsize : w.utf8ByteSize < Span.limit) :
    ∃ span, span.lo = 0 ∧ span.hi = w.utf8ByteSize ∧
      Buffer.ofSource w = .ok (.ofTokens [⟨classify w, w, span⟩] w.utf8ByteSize) := by
  have hlength : Text.byteLength w.toList < Span.limit := by rwa [Text.byteLength_toList]
  obtain ⟨t, ht, hspan⟩ := @exists_toToken ⟨0, w.toList⟩ hlength
  obtain ⟨⟨htext, hkind⟩, hlo, -⟩ := toToken_eq_ok ht
  rw [String.ofList_toList] at htext
  have htokens : (lexemes 0 w.toList).mapM Lexeme.toToken = .ok [t] := by
    rw [lexemes_unit_alone hunit, List.mapM_cons, ht]
    rfl
  refine ⟨t.span, hlo, ?_, ?_⟩
  · rw [hspan, Text.byteLength_toList, Nat.zero_add]
  · rw [(ofSource_of_mapM htokens).2, ← htext, ← hkind]

theorem isUnit_of_isInteger {cs : List Char} (h : isInteger cs = true) : IsUnit cs := by
  have hdigits : ∀ ds, isDigits ds = true → ∀ c ∈ ds, endsWord c = false := by
    intro ds hds c hc
    rw [isDigits, Bool.and_eq_true] at hds
    exact Decimal.endsWord_of_isDigit (List.all_eq_true.mp hds.2 c hc)
  rcases Decimal.isInteger_cases h with ⟨ds, rfl, hds⟩ | hds
  · exact .word (by decide) (by decide) (hdigits ds hds)
  · cases cs with
    | nil => cases hds
    | cons c cs =>
      have hc := endsWord_eq_false_iff.mp (hdigits _ hds c (List.mem_cons_self ..))
      exact .word hc.1.1 hc.1.2 fun x hx => hdigits _ hds x (List.mem_cons_of_mem _ hx)

end Token

/-! ## Writing one -/

namespace Decimal

theorem byteLength_of_isDigit {ds : List Char} (h : ds.all Char.isDigit = true) :
    Text.byteLength ds = ds.length := by
  induction ds with
  | nil => rfl
  | cons c ds ih =>
    rw [List.all_cons, Bool.and_eq_true] at h
    have hsize : c.utf8Size = 1 := by
      have hc : c.val ≤ 57 := by
        have := h.1
        simp only [Char.isDigit, Bool.and_eq_true, decide_eq_true_eq] at this
        exact this.2
      rw [Char.utf8Size, if_pos (UInt32.le_trans hc (by decide))]
    rw [Text.byteLength_cons, ih h.2, hsize, List.length_cons, Nat.add_comm]

/-- An integer of thirty-two bits is written with ten digits at most and a sign. -/
theorem utf8ByteSize_integerText {value : Int} (h : InRange value) :
    (integerText value).utf8ByteSize ≤ 11 := by
  have hdigits : ∀ n : Nat, n ≤ 2147483648 → Text.byteLength (digits n) ≤ 10 := by
    intro n hn
    rw [byteLength_of_isDigit (isDigit_digits n)]
    refine (digitCount_le_iff (by decide)).mpr (Nat.lt_of_le_of_lt hn (by decide))
  obtain ⟨hlow, hhigh⟩ := h
  rw [← Text.byteLength_toList]
  cases value with
  | ofNat n =>
    have hn : (n : Int) ≤ 2147483647 := hhigh
    have := hdigits n (by omega)
    rw [toList_integerText_ofNat]
    omega
  | negSucc n =>
    have := hdigits (n + 1) (by omega)
    have hminus : '-'.utf8Size = 1 := rfl
    rw [toList_integerText_negSucc, Text.byteLength_cons]
    omega

end Decimal

namespace Parsing

open Decimal (Denotes InRange integerOf)
open Listing (exprText)

/-- A word that is classified as an integer literal denotes an integer. Read as an expression it is
that integer if it fits thirty-two bits, and is refused at its place as out of range otherwise; a
source that consists of the word has it as its only token. What is written for the integer is again
an integer literal, and is read as the same integer. -/
theorem integerLiteral_exact {w : String} (hw : classify w = .integerLiteral) :
    ∃ v, Denotes w.toList v ∧
      (∀ span length, (parseExpression (.ofTokens [⟨classify w, w, span⟩] length)).outcome =
        if InRange v then .ok (.integer v span)
        else .error (.problem ⟨span, .literalOutOfRange⟩)) ∧
      (w.utf8ByteSize < Span.limit → ∃ span, span.lo = 0 ∧ span.hi = w.utf8ByteSize ∧
        Buffer.ofSource w = .ok (.ofTokens [⟨classify w, w, span⟩] w.utf8ByteSize)) ∧
      (InRange v → ∀ place, ∃ text span, text = exprText (.integer v place) ∧
        classify text = .integerLiteral ∧ Denotes text.toList v ∧
        Buffer.ofSource text = .ok (.ofTokens [⟨classify text, text, span⟩] text.utf8ByteSize) ∧
        (parseExpression (.ofTokens [⟨classify text, text, span⟩] text.utf8ByteSize)).outcome =
          .ok (.integer v span)) := by
  have hshape : isInteger w.toList = true := by
    have := @Token.shape_of_classify w (by rw [hw]; rfl) (by rw [hw]; decide)
    rwa [hw] at this
  refine ⟨integerOf w, Decimal.denotes_integerOf hshape, ?_, ?_, ?_⟩
  · intro span length
    rw [hw]
    exact parseExpression_integer hshape span length
  · exact Token.ofSource_unit (Token.isUnit_of_isInteger hshape)
  · intro hrange place
    have hwritten := Decimal.isInteger_integerText (integerOf w)
    have hvalue := Decimal.integerOf_integerText (integerOf w)
    have hclass : classify (Decimal.integerText (integerOf w)) = .integerLiteral :=
      @Token.classify_of_shape _ .integerLiteral hwritten
    have hsize : (Decimal.integerText (integerOf w)).utf8ByteSize < Span.limit :=
      Nat.lt_of_le_of_lt (Decimal.utf8ByteSize_integerText hrange) (by decide)
    obtain ⟨span, -, -, hsource⟩ :=
      Token.ofSource_unit (Token.isUnit_of_isInteger hwritten) hsize
    refine ⟨Decimal.integerText (integerOf w), span, rfl, hclass, ?_, hsource, ?_⟩
    · have := Decimal.denotes_integerOf hwritten
      rwa [hvalue] at this
    · rw [hclass, parseExpression_integer hwritten, hvalue, if_pos hrange]

/-- The least integer, written with zeros in front of its ten digits. -/
theorem integerLiteral_exact_least :
    classify "-002147483648" = .integerLiteral ∧
      (∀ span length, (parseExpression
          (.ofTokens [⟨classify "-002147483648", "-002147483648", span⟩] length)).outcome =
        .ok (.integer (-2147483648) span)) ∧
      ∃ span, (parseExpression (.ofTokens [⟨classify "-2147483648", "-2147483648", span⟩]
        "-2147483648".utf8ByteSize)).outcome = .ok (.integer (-2147483648) span) := by
  have hclass : classify "-002147483648" = .integerLiteral := by decide
  have hdenotes : Denotes "-002147483648".toList (-2147483648) :=
    @Denotes.negated "002147483648".toList (by decide) (by decide)
  obtain ⟨v, hv, hread, -, hwritten⟩ := integerLiteral_exact hclass
  obtain rfl := hv.unique hdenotes
  obtain ⟨text, span, htext, -, -, -, hagain⟩ := hwritten (by decide) (.empty 0)
  obtain rfl : text = "-2147483648" := htext.trans (by decide)
  exact ⟨hclass, fun span length => (hread span length).trans (if_pos (by decide)), span, hagain⟩

end Parsing

end Bukvar
