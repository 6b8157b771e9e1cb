import Bukvar.Proofs.Diagnostic.Blame
import Bukvar.Proofs.Listing.ExpressionRoundTrip
import Bukvar.Proofs.Listing.Normal
import Bukvar.Proofs.Listing.Returns
import Bukvar.Proofs.Parsing.ProgramExactness
import Bukvar.Proofs.Token.Lines

/-!
# Programs behind each other

Two texts that are programs when they stand between the words of a program are one program when
they stand there on lines behind each other. The tokens of the first text end with its last line,
its statements end before the first token of the second one, and the second text declares what it
reads, so nothing of the first one reaches the second one.

* `exists_phrase`: the statements of a text.
* `parse_sequence`: the program of two texts.
* `compile_sequence`: its listing.
-/

namespace Bukvar

open Token (Buffer Lexed Stream TokensOf)
open Grammar (Declarations Phrase Symbol symbol programWord)
open Listing (backLines frontLines mainLines nodes unitSymbol)

/-- A text on lines of its own between the words of a program. -/
def enclosed (text : String) : String :=
  "начало\n" ++ text ++ "\nконец"

theorem toList_enclosed (text : String) :
    (enclosed text).toList =
      "начало".toList ++ '\n' :: (text.toList ++ '\n' :: "конец".toList) := by
  simp [enclosed]

/-! ## The statements of a text -/

/-- What the grammar sees of a text. -/
def symbolsOf (text : String) : List Symbol :=
  (Token.units text.toList).map unitSymbol

theorem symbolsOf_begin : symbolsOf "начало" = [.mark .programBegin] := by
  rw [symbolsOf, Token.units_eq_singleton (by decide) (by decide)]
  decide

theorem symbolsOf_end : symbolsOf "конец" = [.mark .programEnd] := by
  rw [symbolsOf, Token.units_eq_singleton (by decide) (by decide)]
  decide

theorem symbolsOf_enclosed (text : String) :
    symbolsOf (enclosed text) =
      .mark .programBegin :: (symbolsOf text ++ [.mark .programEnd]) := by
  rw [symbolsOf, toList_enclosed, Token.units_newline, Token.units_newline, List.map_append,
    List.map_append]
  change symbolsOf "начало" ++ (symbolsOf text ++ symbolsOf "конец") = _
  rw [symbolsOf_begin, symbolsOf_end]
  rfl

/-- The text consists of the statements of a program. -/
structure Derives (text : String) (b : Phrase .block) : Prop where
  word : b.word = symbolsOf text
  valid : b.Valid
  fits : ∀ x ∈ b.word, x.Fits
  announced : Grammar.Announced b.mentions

theorem exists_phrase {c : Compiler} {text : String} {p : Program}
    (h : (c.parse (enclosed text)).outcome = .done p) :
    ∃ b, Derives text b ∧ bareBlock p = b.tree [] := by
  obtain ⟨ts, b, htokens, -, hvalid, hword, hfits, hannounced, htree⟩ :=
    c.exists_phrase_of_parse h
  have hsymbols : ts.map symbol = symbolsOf (enclosed text) := Listing.map_symbol_eq htokens
  rw [hsymbols, symbolsOf_enclosed] at hword
  have hbody := List.append_cancel_right (List.cons.inj hword).2
  refine ⟨b, ⟨hbody, hvalid, ?_, hannounced⟩, htree⟩
  intro x hx
  exact hfits x (by simp [programWord, hx])

/-! ## Reading both -/

/-- The reader of statements goes on behind the first text, with what is declared there. It reads
the second text as if that stood alone. -/
theorem program_sequence {s s₁ s₂ s₃ s₄ : Stream} {a b : String} {d e : Phrase .block}
    (hd : Derives a d) (he : Derives b e) (hfirst : Passes s [.mark .programBegin] s₁)
    (hpassd : Passes s₁ d.word s₂) (hpasse : Passes s₂ e.word s₃)
    (hlast : Passes s₃ [.mark .programEnd] s₄) (hend : s₄.current.kind = .endOfInput)
    (hwithind : ∃ lo, s₁.Within lo d.word) (hwithine : ∃ lo, s₂.Within lo e.word) :
    ∃ body m, Parsing.program ⟨s, []⟩ = .ok body m ∧ bareBlock body = d.tree [] ++ e.tree [] := by
  obtain rfl : s₁ = s.step := hfirst.eq_skip
  have hcoverd : Declarations.Cover [] d.mentions := (Grammar.cover_nil_iff _).mpr hd.announced
  have hcovere : Declarations.Cover [] e.mentions := (Grammar.cover_nil_iff _).mpr he.announced
  have holder := Declarations.cover_older (Declarations.after [] d.mentions) hcovere
  have hkind : s₃.current.kind = .programEnd := by
    obtain ⟨t, rest, hahead, ht, -⟩ := hlast.uncons
    rw [Stream.current_of_ahead hahead]
    exact congrArg Symbol.kind ht
  obtain ⟨front, fuel, hfront, hfuel, hgoesOn⟩ :=
    Parsing.statements_continue d ⟨hwithind, hpassd, hd.fits, hcoverd⟩ hd.valid
      (Nat.lt_succ_self _)
  obtain ⟨back, hback, hbacktree⟩ :=
    Parsing.statements_complete e ⟨hwithine, hpasse, he.fits, holder⟩ he.valid hfuel hkind
  refine ⟨front ++ back, _, Parsing.run_program hfirst (hgoesOn back _ hback) hlast hend, ?_⟩
  rw [bareBlock_append, hfront, hbacktree]
  exact congrArg _ (e.tree_older _ hcovere)

/-- The tokens of two texts on lines behind each other, with the words around them. -/
theorem exists_tokens_sequence {a b : String} (ha : a.utf8ByteSize < Span.limit)
    (hb : b.utf8ByteSize < Span.limit) :
    ∃ fs as bs ls, TokensOf "начало" fs ∧ TokensOf a as ∧ TokensOf b bs ∧ TokensOf "конец" ls ∧
      Lexed 0 (enclosed (a ++ "\n" ++ b)).toList (fs ++ (as ++ (bs ++ ls))) ∧
      (∃ lo, ∀ t ∈ as, t.span.Within lo) ∧ ∃ lo, ∀ t ∈ bs, t.span.Within lo := by
  rw [← Text.byteLength_toList] at ha hb
  obtain ⟨fs, hfs, -⟩ := @Token.exists_lexed 0 "начало".toList (by decide)
  obtain ⟨as, has, hwithin⟩ := Token.exists_lexed _ ha
  obtain ⟨bs, hbs, hwithin'⟩ := Token.exists_lexed _ hb
  obtain ⟨ls, hls, -⟩ := @Token.exists_lexed _ "конец".toList (by decide)
  have htext : (enclosed (a ++ "\n" ++ b)).toList = "начало".toList ++ '\n' ::
      (a.toList ++ '\n' :: (b.toList ++ '\n' :: "конец".toList)) := by
    rw [toList_enclosed]
    simp
  refine ⟨fs, as, bs, ls, Token.tokensOf_of_mapM hfs, Token.tokensOf_of_mapM has,
    Token.tokensOf_of_mapM hbs, Token.tokensOf_of_mapM hls, ?_, ⟨_, hwithin⟩, _, hwithin'⟩
  rw [htext]
  exact hfs.newline (has.newline (hbs.newline hls))

/-- Two texts that are programs between the words of one are a program together. Its statements are
those of both, up to their places. -/
theorem parse_sequence {c : Compiler} {a b : String} {p q : Program}
    (hp : (c.parse (enclosed a)).outcome = .done p)
    (hq : (c.parse (enclosed b)).outcome = .done q) (ha : a.utf8ByteSize < Span.limit)
    (hb : b.utf8ByteSize < Span.limit) :
    ∃ r, (c.parse (enclosed (a ++ "\n" ++ b))).outcome = .done r ∧
      bareBlock r = bareBlock (p ++ q) := by
  obtain ⟨d, hd, hptree⟩ := exists_phrase hp
  obtain ⟨e, he, hqtree⟩ := exists_phrase hq
  obtain ⟨fs, as, bs, ls, hfs, has, hbs, hls, hlexed, ⟨lo, hwithin⟩, lo', hwithin'⟩ :=
    exists_tokens_sequence ha hb
  obtain ⟨htokens, hbuffer⟩ := Token.ofSource_of_mapM hlexed
  obtain ⟨s, hstream, hahead, -⟩ :=
    Token.exists_stream (fs ++ (as ++ (bs ++ ls))) (enclosed (a ++ "\n" ++ b)).utf8ByteSize
  have hc : Token.Complete s.ahead := hahead ▸ htokens.complete _
  have hfs : fs.map symbol = [.mark .programBegin] :=
    (Listing.map_symbol_eq hfs).trans symbolsOf_begin
  have has : as.map symbol = d.word := (Listing.map_symbol_eq has).trans hd.word.symm
  have hbs : bs.map symbol = e.word := (Listing.map_symbol_eq hbs).trans he.word.symm
  have hls : ls.map symbol = [.mark .programEnd] :=
    (Listing.map_symbol_eq hls).trans symbolsOf_end
  simp only [List.append_assoc] at hahead
  obtain ⟨hfirst, hahead₁⟩ := Passes.front hc hahead (by simp)
  obtain ⟨hpassd, hahead₂⟩ := Passes.front hfirst.complete_right hahead₁ (by simp)
  obtain ⟨hpasse, hahead₃⟩ := Passes.front hpassd.complete_right hahead₂ (by simp)
  obtain ⟨hlast, hahead₄⟩ := Passes.front hpasse.complete_right hahead₃ (by simp)
  obtain ⟨r, m, hrun, hr⟩ := program_sequence hd he (hfs ▸ hfirst) (has ▸ hpassd) (hbs ▸ hpasse)
    (hls ▸ hlast) (congrArg Token.kind (Stream.current_of_ahead hahead₄))
    ⟨lo, has ▸ .of_ahead hahead₁ hwithin⟩ ⟨lo', hbs ▸ .of_ahead hahead₂ hwithin'⟩
  have hread : (Parsing.parseProgram (.ofTokens (fs ++ (as ++ (bs ++ ls)))
      (enclosed (a ++ "\n" ++ b)).utf8ByteSize)).outcome = .ok r :=
    (Parsing.outcome_parse_eq_ok_iff hstream).mpr ⟨m, hrun⟩
  refine ⟨r, ?_, ?_⟩
  · rw [(c.parse_of_ofSource hbuffer).1, hread]
    rfl
  · rw [hr, bareBlock_append, hptree, hqtree]

/-! ## The listing of both -/

/-- Places have no part in the lines of a program. -/
theorem mainLines_of_bareBlock {p q : Program} (h : bareBlock p = bareBlock q) :
    mainLines p = mainLines q := by
  rw [← Listing.mainLines_normal, ← Listing.normal_bareBlock, h, Listing.normal_bareBlock,
    Listing.mainLines_normal]

theorem returnsValue_eq_false_iff {p : Program} :
    Listing.returnsValue p = false ↔ ∀ n ∈ nodes p, ¬ n.GivesValue := by
  rw [← Bool.not_eq_true, Listing.returnsValue_iff [] p, nodes]
  simp

/-- Between the words of a program, the text compiles to the code, and no return in it has a
value. -/
structure CompilesVoid (c : Compiler) (text code : String) : Prop where
  compiled : (c.compile (enclosed text)).outcome = .done code
  void : ∀ p, (c.parse (enclosed text)).outcome = .done p → ∀ n ∈ nodes p, ¬ n.GivesValue

/-- The code with the given lines in a `Main` that returns nothing. -/
def voidCode (options : Listing.Options) (lines : List Layout.Line) : String :=
  Layout.render options.indent (frontLines options "void" ++ lines ++ backLines)

theorem generate_void (options : Listing.Options) {p : Program}
    (hp : Listing.returnsValue p = false) :
    Listing.generate options p = voidCode options (mainLines p) := by
  rw [Listing.generate_eq, Listing.lines_eq, Listing.mainType, hp]
  rfl

theorem CompilesVoid.exists_program {c : Compiler} {text code : String}
    (h : CompilesVoid c text code) :
    ∃ p, (c.parse (enclosed text)).outcome = .done p ∧ Listing.returnsValue p = false ∧
      code = voidCode c.options (mainLines p) := by
  obtain ⟨p, hp, hcode⟩ := Outcome.exists_of_map h.compiled
  have hvoid := returnsValue_eq_false_iff.mpr (h.void p hp)
  exact ⟨p, hp, hvoid, hcode ▸ generate_void c.options hvoid⟩

theorem compilesVoid_of_parse {c : Compiler} {text : String} {p : Program}
    (hp : (c.parse (enclosed text)).outcome = .done p) (hvoid : Listing.returnsValue p = false) :
    CompilesVoid c text (voidCode c.options (mainLines p)) := by
  constructor
  · rw [Compiler.outcome_compile_of_parse hp, generate_void c.options hvoid]
  · intro q hq
    rw [hp] at hq
    cases hq
    exact returnsValue_eq_false_iff.mp hvoid

/-- If two texts compile between the words of a program and no return in them has a value, then both
on lines behind each other compile too, and the lines inside `Main` are those of the first text with
those of the second one behind them. -/
theorem compile_sequence {c : Compiler} {a b codeA codeB : String}
    (ha : CompilesVoid c a codeA) (hb : CompilesVoid c b codeB)
    (hsize : a.utf8ByteSize + b.utf8ByteSize < Span.limit) :
    ∃ p q, (c.parse (enclosed a)).outcome = .done p ∧ (c.parse (enclosed b)).outcome = .done q ∧
      codeA = voidCode c.options (mainLines p) ∧ codeB = voidCode c.options (mainLines q) ∧
      CompilesVoid c (a ++ "\n" ++ b) (voidCode c.options (mainLines p ++ mainLines q)) := by
  obtain ⟨p, hp, hpvoid, hcodeA⟩ := ha.exists_program
  obtain ⟨q, hq, hqvoid, hcodeB⟩ := hb.exists_program
  obtain ⟨r, hr, hbare⟩ := parse_sequence hp hq (by omega) (by omega)
  have hboth : Listing.returnsValue (p ++ q) = false := by
    rw [Listing.returnsValue_append, hpvoid, hqvoid]
    rfl
  have hrvoid : Listing.returnsValue r = false := by
    rw [← Listing.returnsValue_bareBlock, hbare, Listing.returnsValue_bareBlock, hboth]
  have hlines : mainLines r = mainLines p ++ mainLines q := by
    rw [mainLines_of_bareBlock hbare, mainLines, mainLines, mainLines,
      Listing.closingReturn_of_void hboth, Listing.closingReturn_of_void hpvoid,
      Listing.closingReturn_of_void hqvoid, hboth, hpvoid, hqvoid, Listing.blockLines_append]
    simp only [List.append_nil]
  refine ⟨p, q, hp, hq, hcodeA, hcodeB, ?_⟩
  rw [← hlines]
  exact compilesVoid_of_parse hr hrvoid

/-- Both texts declare a name that is a quote which is left open. On one line the two quotes would
enclose a string. -/
theorem compile_sequence_quotes :
    CompilesVoid (.fresh {}) "цел \";" (voidCode {} [⟨2, "int \";"⟩]) ∧
      CompilesVoid (.fresh {}) "строка \";\nпрочитать \";"
        (voidCode {} [⟨2, "string \";"⟩, ⟨2, "\" = Console.ReadLine() ?? string.Empty;"⟩]) ∧
      "цел \";".utf8ByteSize + "строка \";\nпрочитать \";".utf8ByteSize < Span.limit ∧
      CompilesVoid (.fresh {}) "цел \";\nстрока \";\nпрочитать \";"
        (voidCode {} [⟨2, "int \";"⟩, ⟨2, "string \";"⟩,
          ⟨2, "\" = Console.ReadLine() ?? string.Empty;"⟩]) := by
  have hlines : ((Compiler.fresh {}).parse (enclosed "цел \";")).outcome.map
      (fun p => (Listing.returnsValue p, mainLines p)) = .done (false, [⟨2, "int \";"⟩]) := by
    decide +kernel
  have hlines' : ((Compiler.fresh {}).parse
      (enclosed "строка \";\nпрочитать \";")).outcome.map
        (fun p => (Listing.returnsValue p, mainLines p)) =
      .done (false, [⟨2, "string \";"⟩, ⟨2, "\" = Console.ReadLine() ?? string.Empty;"⟩]) := by
    decide +kernel
  obtain ⟨p, hp, hpair⟩ := Outcome.exists_of_map hlines
  obtain ⟨q, hq, hpair'⟩ := Outcome.exists_of_map hlines'
  obtain ⟨hvoid, hmain⟩ := Prod.mk.inj hpair
  obtain ⟨hvoid', hmain'⟩ := Prod.mk.inj hpair'
  have ha := compilesVoid_of_parse hp hvoid
  have hb := compilesVoid_of_parse hq hvoid'
  have hsize : "цел \";".utf8ByteSize + "строка \";\nпрочитать \";".utf8ByteSize < Span.limit := by
    decide
  obtain ⟨p', q', hp', hq', -, -, hboth⟩ := compile_sequence ha hb hsize
  rw [hp] at hp'
  rw [hq] at hq'
  cases hp'
  cases hq'
  rw [hmain] at ha
  rw [hmain'] at hb
  rw [hmain, hmain'] at hboth
  exact ⟨ha, hb, hsize, hboth⟩

end Bukvar
