import Bukvar.Proofs.Listing.Reading
import Bukvar.Proofs.Parsing.Legibility

/-!
# Written expressions are read back

The C# text of an expression that occurs in a program is itself an expression of the language, and
it is read as the expression that it was written for.

* `ownReading`: units with the kinds that the classification gives them.
* `parseExpression_of_word`: reading a text whose units are a word of the grammar.
* `parseExpression_exprText`: reading the text of an expression.
-/

namespace Bukvar.Listing

open Token (Buffer TokensOf classify units)
open Grammar (Symbol symbol Derivation)

/-- What the grammar sees of a unit. -/
def unitSymbol (unit : List Char) : Symbol :=
  ⟨classify (String.ofList unit),
    if (classify (String.ofList unit)).hasText then String.ofList unit else ""⟩

theorem unitSymbol_of_shape {text : String} {kind : Token.Kind}
    (h : kind.shape text.toList = true) (htext : kind.hasText = true) :
    unitSymbol text.toList = ⟨kind, text⟩ := by
  rw [unitSymbol, String.ofList_toList, Token.classify_of_shape h, if_pos htext]

theorem unitSymbol_name {text : String} (h : classify text = .name) :
    unitSymbol text.toList = ⟨.name, text⟩ := by
  rw [unitSymbol, String.ofList_toList, h]
  rfl

/-- The symbols of a source are those of its units. -/
theorem map_symbol_eq {source : String} {ts : List Token} (h : TokensOf source ts) :
    ts.map symbol = (units source.toList).map unitSymbol := by
  have htexts : (units source.toList) = ts.map fun t => t.text.toList := by
    have := congrArg (List.map String.toList) h.texts
    simpa [List.map_map, Function.comp_def] using this.symm
  rw [htexts, List.map_map]
  apply List.map_congr_left
  intro t ht
  rw [symbol, Function.comp_apply, unitSymbol, String.ofList_toList, h.kinds t ht]

/-- A leaf as the literal or the name that is written for it. -/
def ownLeaf : Expr → Derivation .primary
  | .integer value span => .integer (exprText (.integer value span))
  | .double value span => .double (exprText (.double value span))
  | .string value span => .string (exprText (.string value span))
  | e => .name (exprText e)

/-- Units as the classification takes them. -/
def ownReading : Reading where
  symbolOf := unitSymbol
  leaf := ownLeaf
  symbolOf_open := by decide
  symbolOf_close := by decide
  symbolOf_sign op := by cases op <;> decide
  leaf_ident _ _ := rfl

variable {named : String → Prop}

theorem covers_ownReading (hnamed : ∀ n, named n → classify n = .name) {e : Expr}
    (he : e.Legible named) (hdoubles : ∀ x ∈ e.doubles, Token.isDouble x.text.toList = true) :
    ownReading.Covers e := by
  induction e with
  | binary op lhs rhs span ihl ihr =>
    refine ⟨ihl he.1 ?_, ihr he.2.1 ?_⟩
    · exact fun x hx => hdoubles x (List.mem_append_left _ hx)
    · exact fun x hx => hdoubles x (List.mem_append_right _ hx)
  | ident id span => exact congrArg (fun s => [s]) (unitSymbol_name (hnamed _ he)).symm
  | integer value span =>
    have hshape : Token.Kind.integerLiteral.shape (Decimal.integerText value).toList = true :=
      Decimal.isInteger_integerText value
    exact congrArg (fun s => [s]) (unitSymbol_of_shape hshape rfl).symm
  | double value span =>
    have hshape : Token.Kind.doubleLiteral.shape value.text.toList = true :=
      hdoubles value (List.mem_singleton_self _)
    exact congrArg (fun s => [s]) (unitSymbol_of_shape hshape rfl).symm
  | string value span =>
    have hquoted : ("\"" ++ value ++ "\"").toList = '"' :: value.toList ++ ['"'] := by simp
    have hshape : Token.Kind.stringLiteral.shape ("\"" ++ value ++ "\"").toList = true := by
      rw [hquoted]
      exact Token.isString_quoted value.toList
    exact congrArg (fun s => [s]) (unitSymbol_of_shape hshape rfl).symm

theorem tree_ownReading {e : Expr} (he : e.Legible named) : ownReading.tree e = e.bare := by
  induction e with
  | binary op lhs rhs span ihl ihr => rw [Reading.tree, ihl he.1, ihr he.2.1, Expr.bare]
  | ident id span => rfl
  | integer value span =>
    change Expr.integer (Decimal.integerOf (Decimal.integerText value)) _ = _
    rw [Decimal.integerOf_integerText]
    rfl
  | double value span =>
    change Expr.double (Decimal.doubleOf value.text) _ = _
    rw [Decimal.doubleOf_text he]
    rfl
  | string value span =>
    change Expr.string (Text.stringOf ("\"" ++ value ++ "\"")) _ = _
    have hvalue : Text.stringOf ("\"" ++ value ++ "\"") = value := by
      simp [Text.stringOf]
    rw [hvalue]
    rfl

/-- The stream of a text that is short enough: its symbols are those of its units. -/
theorem exists_stream_of_text {text : String} (hsize : text.utf8ByteSize < Span.limit) :
    ∃ buffer s ts, Buffer.ofSource text = .ok buffer ∧ buffer.stream? = some s ∧ s.Near ∧
      Token.Complete s.ahead ∧ s.ahead = ts ++ [.endOfInput text.utf8ByteSize] ∧
      ts.map symbol = (units text.toList).map unitSymbol := by
  obtain ⟨ts, htokens, hbuffer, hspans⟩ := Token.exists_buffer hsize
  obtain ⟨s, hstream, hahead, hnear⟩ := Token.exists_stream ts text.utf8ByteSize
  exact ⟨_, s, ts, hbuffer, hstream, hnear hspans hsize, hahead ▸ htokens.complete _, hahead,
    map_symbol_eq htokens⟩

/-- Reading a text whose units are a word of the grammar. -/
theorem parseExpression_of_word {text : String} {d : Derivation .assignment}
    (hword : d.word = (units text.toList).map unitSymbol) (hlegible : d.tree.Legible named)
    (hsize : text.utf8ByteSize < Span.limit) :
    ∃ buffer e, Buffer.ofSource text = .ok buffer ∧
      (Parsing.parseExpression buffer).outcome = .ok e ∧ e.bare = d.tree := by
  obtain ⟨buffer, s, ts, hbuffer, hstream, hnear, hc, hahead, hsymbols⟩ :=
    exists_stream_of_text hsize
  obtain ⟨e, m, hrun, hbare⟩ :=
    @Parsing.expressionOnly_complete [] s ts _ d hnear hc hahead rfl (hword.trans hsymbols.symm)
      (d.fits_word hlegible)
  exact ⟨buffer, e, hbuffer, (Parsing.outcome_parse_eq_ok_iff hstream).mpr ⟨m, hrun⟩, hbare⟩

/-- Reading the text of an expression whose leaves are read back. -/
theorem exists_parseExpression {e : Expr} (hnamed : ∀ n, named n → Token.IsAtom n.toList)
    (hclass : ∀ n, named n → classify n = .name) (he : e.Legible named)
    (hdoubles : ∀ x ∈ e.doubles, Token.isDouble x.text.toList = true)
    (hsize : (exprText e).utf8ByteSize < Span.limit) :
    ∃ buffer e', Buffer.ofSource (exprText e) = .ok buffer ∧
      (Parsing.parseExpression buffer).outcome = .ok e' ∧ e'.bare = e.bare := by
  obtain ⟨d, hword, htree⟩ :=
    (Reading.exists_derivation he (covers_ownReading hclass he hdoubles)).1
  rw [tree_ownReading he] at htree
  have hunits : units (exprText e).toList = exprUnits e := by
    simpa using units_exprText hnamed he Token.separated_nil
  have hlegible : d.tree.Legible named := by
    rw [htree]
    exact Expr.legible_bare.mpr he
  rw [← htree]
  exact parseExpression_of_word (hunits ▸ hword) hlegible hsize

/-- The C# text of an expression anywhere in a program is read as that expression, provided that
none of its names starts with a quote and its floating-point numbers are written without a power
of ten. An expression has a span only where its text is shorter than four gigabytes. -/
theorem parseExpression_exprText {c : Compiler} {source : String} {p : Program} {e : Expr}
    (hparse : (c.parse source).outcome = .done p)
    (hoccurs : e ∈ (blockExprs p).flatMap Expr.subterms)
    (hnames : ∀ n ∈ e.names, n.toList.head? ≠ some '"')
    (hdoubles : ∀ x ∈ e.doubles, Token.isDouble x.text.toList = true)
    (hsize : (exprText e).utf8ByteSize < Span.limit) :
    ∃ buffer e', Buffer.ofSource (exprText e) = .ok buffer ∧
      (Parsing.parseExpression buffer).outcome = .ok e' ∧ e'.bare = e.bare := by
  obtain ⟨ts, htokens, -, hlegible⟩ := Compiler.legible_of_parse hparse
  obtain ⟨whole, hwhole, hpart⟩ := List.mem_flatMap.mp hoccurs
  have hblock := hlegible (fun n => Token.IsUnit n.toList ∧ classify n = .name)
    fun t ht hkind => ⟨htokens.isUnit ht, (htokens.kinds t ht).symm.trans hkind⟩
  have he := (legible_of_mem_blockExprs hblock hwhole).of_mem_subterms hpart
  have hword : e.Legible fun n => Token.IsAtom n.toList ∧ classify n = .name := by
    apply he.rename
    rintro n hn ⟨hunit, hname⟩
    exact ⟨Token.isAtom_of_name hunit hname (hnames n hn), hname⟩
  exact exists_parseExpression (fun _ h => h.1) (fun _ h => h.2) hword hdoubles hsize

/-- An assignment as an operand, the place where it needs parentheses. -/
def groupedAssignment : Expr :=
  .binary .assign (.ident ⟨"x", x⟩ x) (.binary .subtract
    (.binary .assign (.ident ⟨"y", y⟩ y) (.integer 1 ⟨22, 1, by decide⟩) ⟨17, 7, by decide⟩)
    (.double number ⟨27, 3, by decide⟩) ⟨17, 13, by decide⟩) ⟨13, 17, by decide⟩
where
  x : Span := ⟨13, 1, by decide⟩
  y : Span := ⟨18, 1, by decide⟩
  number : Decimal.Binary64 := .ofBits 0x4004000000000000

theorem parseExpression_exprText_grouped :
    ∃ p, ((Compiler.fresh {}).parse "начало x = (y = 1) - 2.5; конец").outcome = .done p ∧
      groupedAssignment ∈ (blockExprs p).flatMap Expr.subterms ∧
      exprText groupedAssignment = "x = ((y = 1) - 2.5)" ∧
      "y" ∈ groupedAssignment.names ∧ groupedAssignment.number ∈ groupedAssignment.doubles ∧
      ∃ buffer e', Buffer.ofSource "x = ((y = 1) - 2.5)" = .ok buffer ∧
        (Parsing.parseExpression buffer).outcome = .ok e' ∧ e'.bare = groupedAssignment.bare := by
  have hexprs : ((Compiler.fresh {}).parse "начало x = (y = 1) - 2.5; конец").outcome.map
      blockExprs = .done [groupedAssignment] := by decide +kernel
  have htext : exprText groupedAssignment = "x = ((y = 1) - 2.5)" := by decide +kernel
  obtain ⟨p, hparse, hp⟩ := Outcome.exists_of_map hexprs
  have hoccurs : groupedAssignment ∈ (blockExprs p).flatMap Expr.subterms := by
    rw [hp]
    exact List.mem_cons_self ..
  refine ⟨p, hparse, hoccurs, htext, by decide, by decide, ?_⟩
  rw [← htext]
  exact parseExpression_exprText hparse hoccurs (by decide) (by decide +kernel) (by decide +kernel)

end Bukvar.Listing
