import Bukvar.Proofs.Parsing.Account
import Bukvar.Proofs.Parsing.Exactness
import Bukvar.Proofs.Parsing.Places

/-!
# Spans are exact

The span of an expression is the stretch of the source from which the expression can be read alone.
The slice at the span has the tokens of the expression, since these are some of the tokens of the
source (`exists_slice`), so it is read as an expression with the same bare tree; and the spans of an
expression follow from its tokens (`Spells.unique`), so they agree as well, up to the offset of the
slice.

* `exists_read_of_spells`: reading the tokens of an expression at another place.
* `exact_of_spells`: an expression that some tokens of a source spell.
* `spans_exact`: all expressions and all names of what was read from a source.
-/

namespace Bukvar

open Token (Buffer Stream TokensOf)
open Grammar (symbol Derivation Level)

/-- The expression can be read from its slice of the source, its sides follow each other inside its
span, and the slice at a name is the name. -/
structure Expr.Exact (source : String) (n : Expr) : Prop where
  reread : ∃ text buffer e, n.span.slice? source = some text ∧ Buffer.ofSource text = .ok buffer ∧
    (Parsing.parseExpression buffer).outcome = .ok e ∧ n = e.moved n.span.lo ∧
    e.span.lo = 0 ∧ e.span.hi = text.utf8ByteSize
  sides : n.SidesInOrder
  name : ∀ id span, n = .ident id span → id.span.slice? source = some id.name

namespace Parsing

variable {source : String} {ts before us after : List Token} {e n : Expr} {l : Level}

/-- An expression with nothing behind it is spelled by all tokens. -/
theorem expressionOnly_spelled {ds : List (String × VarType)} {s : Stream} {u : Token} {m : State}
    (hc : Token.Complete s.ahead) (hs : s.ahead = ts ++ [u])
    (h : expressionOnly ⟨s, ds⟩ = .ok e m) : Spells .assignment ts e := by
  obtain ⟨e', n, he, hrest⟩ := bind_eq_ok_iff.mp h
  obtain ⟨us, hus, hne, hspells⟩ := expression_spelled hc he
  obtain ⟨t, m₂, hend, hret⟩ := bind_eq_ok_iff.mp hrest
  cases hret
  have hahead := ahead_of_end (Token.Complete.of_append (hus ▸ hc) hne) (expect_end_eq_ok hend).1
  rw [hs, hahead] at hus
  rw [(List.append_inj' hus rfl).1]
  exact hspells

/-- An expression can only be read from a token. -/
theorem cursor_lt_of_expression {m r : State} (h : expression m = .ok e r) :
    m.stream.cursor < m.stream.tokens.size := by
  change expressionWithin (m.stream.remaining + 1) 0 m = _ at h
  rw [expressionWithin] at h
  obtain ⟨t, m', hadvance, -⟩ := bind_eq_ok_iff.mp h
  exact (advance_eq_ok_iff.mp hadvance).1.2

/-- An expression that was read somewhere among the tokens of a source is spelled by some of them. -/
theorem exists_spelled {length : Nat} (htokens : TokensOf source ts)
    (h : ReadFrom (Buffer.ofTokens ts length).tokens e) :
    ∃ before us after, ts = before ++ us ++ after ∧ Spells .assignment us e := by
  obtain ⟨⟨s, ds⟩, m, hs, hrun⟩ := h
  have hlt := cursor_lt_of_expression hrun
  change s.tokens = _ at hs
  change s.cursor < s.tokens.size at hlt
  have hle : s.cursor ≤ ts.length := by
    rw [hs] at hlt
    simp only [Buffer.ofTokens, List.size_toArray, List.length_append, List.length_singleton] at hlt
    omega
  have hahead : s.ahead = ts.drop s.cursor ++ [.endOfInput length] := by
    rw [Stream.ahead, hs, Buffer.ofTokens, List.drop_append_of_le_length hle]
  have hall : ts ++ [.endOfInput length] = ts.take s.cursor ++ s.ahead := by
    rw [hahead, ← List.append_assoc, List.take_append_drop]
  have hc : Token.Complete s.ahead := by
    apply Token.Complete.of_append (hall ▸ htokens.complete length)
    rw [hahead]
    simp
  obtain ⟨us, hus, hne, hspells⟩ := expression_spelled hc hrun
  obtain ⟨rest, last, hrest⟩ := (List.eq_nil_or_concat _).resolve_left hne
  rw [hrest, List.concat_eq_append, ← List.append_assoc, hahead] at hus
  have hdrop := (List.append_inj' hus rfl).1
  refine ⟨ts.take s.cursor, us, rest, ?_, hspells⟩
  rw [List.append_assoc, ← hdrop, List.take_append_drop]

/-- An expression that the tokens of a text spell, when they are moved, is read from the text, and is
moved itself. -/
theorem exists_read_of_spells {text : String} {k : Nat} (hsize : text.utf8ByteSize < Span.limit)
    (htokens : TokensOf text ts) (hspans : ∀ t ∈ ts, t.span.hi < Span.limit)
    (h : Spells l (ts.map (Token.moved k)) n) :
    ∃ e, (parseExpression (.ofTokens ts text.utf8ByteSize)).outcome = .ok e ∧ n = e.moved k := by
  obtain ⟨s, hstream, hahead, hnear⟩ := Token.exists_stream ts text.utf8ByteSize
  have hc : Token.Complete s.ahead := hahead ▸ htokens.complete _
  -- The word is the same at both places, so it is read.
  have hwhole : Spells .assignment (ts.map (Token.moved k)) n := .lift h (by cases l <;> decide)
  have hsymbols : (ts.map (Token.moved k)).map symbol = ts.map symbol := by
    rw [List.map_map]
    rfl
  obtain ⟨d, hword, htree⟩ := hwhole.exists_derivation
  obtain ⟨e, m, hrun, hbare⟩ := @expressionOnly_complete [] s ts _ d (hnear hspans hsize) hc
    hahead rfl (hword.trans hsymbols) (hword ▸ hwhole.fits)
  -- The tokens fix the spans of what is read.
  have hmoved := (expressionOnly_spelled hc hahead hrun).moved k
  have heq : n = e.moved k := h.unique hmoved (by rw [Expr.bare_moved, hbare, htree])
  exact ⟨e, (outcome_parse_eq_ok_iff hstream).mpr ⟨m, hrun⟩, heq⟩

/-- An expression that some tokens of a source spell is read from its slice, at the same places. -/
theorem exact_of_spells (hsize : source.utf8ByteSize < Span.limit)
    (htokens : TokensOf source (before ++ us ++ after))
    (hbuffer : Buffer.ofSource source = .ok (.ofTokens (before ++ us ++ after) source.utf8ByteSize))
    (h : Spells l us n) : n.Exact source := by
  have hordered := List.pairwise_map.mp (Token.segmentation_of_ofSource hbuffer).ordered
  obtain ⟨⟨first, hfirst, hlo⟩, ⟨last, hlast, hhi⟩, hsides⟩ :=
    h.spread (List.pairwise_append.mp (List.pairwise_append.mp hordered).1).2.1
  refine ⟨?_, hsides, ?_⟩
  · obtain ⟨text, ts, hslice, hend, hlength, hts, htext, hspans, hmoved⟩ :=
      Token.exists_slice hsize htokens hbuffer hfirst hlast hlo hhi
    rw [hmoved] at h
    obtain ⟨e, hread, heq⟩ := exists_read_of_spells hlength hts hspans h
    have hspan : n.span = e.span.moved n.span.lo := by
      rw [← Expr.span_moved, ← heq]
    have hspanLo := congrArg Span.lo hspan
    have hspanHi := congrArg Span.hi hspan
    rw [Span.lo_moved] at hspanLo
    rw [Span.hi_moved] at hspanHi
    exact ⟨text, _, e, hslice, htext, hread, heq, by omega, by omega⟩
  · rintro id span rfl
    obtain ⟨t, ht, -, rfl⟩ := h.exists_name
    exact Token.slice?_token hbuffer (List.mem_append_left _ (List.mem_append_right _ ht))

theorem exact_of_readFrom (hsize : source.utf8ByteSize < Span.limit) (htokens : TokensOf source ts)
    (hbuffer : Buffer.ofSource source = .ok (.ofTokens ts source.utf8ByteSize))
    (h : ReadFrom (Buffer.ofTokens ts source.utf8ByteSize).tokens e) (hn : n ∈ e.subterms) :
    n.Exact source := by
  obtain ⟨before, us, after, rfl, hspells⟩ := exists_spelled htokens h
  obtain ⟨l, front, vs, back, rfl, hpart⟩ := hspells.exists_of_mem_subterms hn
  have hts : before ++ (front ++ vs ++ back) ++ after =
      before ++ front ++ vs ++ (back ++ after) := by simp
  rw [hts] at htokens hbuffer
  exact exact_of_spells hsize htokens hbuffer hpart

theorem readFrom_of_parseExpression {buffer : Buffer}
    (h : (parseExpression buffer).outcome = .ok e) : ReadFrom buffer.tokens e := by
  obtain ⟨s, m, htokens, hrun⟩ := exists_run_of_parse h
  obtain ⟨e', n, he, hrest⟩ := bind_eq_ok_iff.mp hrun
  obtain ⟨t, m', -, hret⟩ := bind_eq_ok_iff.mp hrest
  cases hret
  exact ⟨⟨s, []⟩, n, htokens, he⟩

/-- A declared or read variable has the span of its name. -/
theorem slice?_ident {length : Nat} (hbuffer : Buffer.ofSource source = .ok (.ofTokens ts length))
    {id : Ident} (h : id.NamedBy (Buffer.ofTokens ts length).tokens) :
    id.span.slice? source = some id.name := by
  obtain ⟨t, ht, hkind, rfl⟩ := h
  simp only [Buffer.ofTokens, List.mem_toArray, List.mem_append, List.mem_singleton] at ht
  rcases ht with ht | rfl
  · exact Token.slice?_token hbuffer ht
  · cases hkind

/-- In what was read from a source, as one expression or as a program, every part of an expression
is exact, and the slice at every variable that is declared or read is its name. -/
theorem spans_exact (source : String) (hsize : source.utf8ByteSize < Span.limit) :
    ∃ buffer, Buffer.ofSource source = .ok buffer ∧
      (∀ e, (parseExpression buffer).outcome = .ok e → ∀ n ∈ e.subterms, n.Exact source) ∧
      ∀ program, (parseProgram buffer).outcome = .ok program →
        (∀ e ∈ blockExprs program, ∀ n ∈ e.subterms, n.Exact source) ∧
        ∀ o ∈ blockOccurrences program, o.ident.span.slice? source = some o.ident.name := by
  obtain ⟨ts, htokens, hbuffer, -⟩ := Token.exists_buffer hsize
  refine ⟨_, hbuffer, ?_, ?_⟩
  · intro e hread n hn
    exact exact_of_readFrom hsize htokens hbuffer (readFrom_of_parseExpression hread) hn
  · intro program hread
    obtain ⟨m, m', hm, -, haccounts⟩ := accounts_of_parse hread
    constructor
    · intro e he n hn
      exact exact_of_readFrom hsize htokens hbuffer (hm ▸ haccounts.exprs e he) hn
    · intro o ho
      exact slice?_ident hbuffer (hm ▸ haccounts.idents o ho)

/-- The slices at the parts of a sum. The slice at the inner sum has its parentheses, and those at
the strings have their quotes. -/
theorem spans_exact_grouped :
    ∃ source buffer program, source = "начало строка s = 1 + (\"а; \" + \"б\"); конец" ∧
      Buffer.ofSource source = .ok buffer ∧ (parseProgram buffer).outcome = .ok program ∧
      ((blockExprs program).flatMap Expr.subterms).map (fun n => n.span.slice? source) =
        ["1 + (\"а; \" + \"б\")", "1", "(\"а; \" + \"б\")", "\"а; \"", "\"б\""].map some ∧
      ∀ e ∈ blockExprs program, ∀ n ∈ e.subterms, n.Exact source := by
  have hrun : (Buffer.ofSource "начало строка s = 1 + (\"а; \" + \"б\"); конец").toOption.bind
      (fun buffer => (parseProgram buffer).outcome.toOption.map fun program =>
        ((blockExprs program).flatMap Expr.subterms).map fun n =>
          n.span.slice? "начало строка s = 1 + (\"а; \" + \"б\"); конец") =
      some (["1 + (\"а; \" + \"б\")", "1", "(\"а; \" + \"б\")", "\"а; \"", "\"б\""].map some) := by
    decide +kernel
  obtain ⟨buffer, hbuffer, hprogram⟩ := Token.exists_of_ofSource hrun
  obtain ⟨program, hread, hslices⟩ := Run.exists_of_outcome hprogram
  obtain ⟨buffer', hbuffer', -, hexact⟩ :=
    spans_exact "начало строка s = 1 + (\"а; \" + \"б\"); конец" (by decide +kernel)
  rw [hbuffer, Except.ok.injEq] at hbuffer'
  subst hbuffer'
  exact ⟨_, buffer, program, rfl, hbuffer, hread, hslices, (hexact program hread).1⟩

end Parsing

end Bukvar
