import Bukvar.Proofs.Grammar.Uniqueness
import Bukvar.Proofs.Parsing.Completeness
import Bukvar.Proofs.Parsing.ProgramStep
import Bukvar.Proofs.Parsing.Soundness
import Bukvar.Proofs.Parsing.Source

/-!
# Exactly the grammar of expressions is read

A source is read as an expression when its tokens are a word of the grammar whose literals have
values, and what is read is the tree of the only derivation of that word.

* `ahead_of_end`: nothing is ahead but the mark at the end.
* `expressionOnly_sound`, `expressionOnly_complete`: reading a stream to its end.
* `parseExpression_exact`: reading a source.
-/

namespace Bukvar

open Token (Stream Buffer)
open Grammar (Symbol symbol Derivation)

/-- Nothing but the mark at the end is left when it is ahead. -/
theorem ahead_of_end {s : Stream} (hc : Token.Complete s.ahead)
    (h : s.current.kind = .endOfInput) : s.ahead = [s.current] := by
  obtain ⟨us, u, hus, -, hne⟩ := hc.ended
  cases us with
  | nil =>
    have hu : s.ahead = [u] := hus
    rw [Stream.current_of_ahead hu, hu]
  | cons v vs =>
    have hv : s.current = v := Stream.current_of_ahead hus
    exact absurd (hv ▸ h) (hne v (List.mem_cons_self ..))

theorem Passes.eq_of_end {s s' : Stream} {ts : List Token} {u : Token} {w : List Symbol}
    (hs : s.ahead = ts ++ [u]) (h : Passes s w s') (hend : s'.current.kind = .endOfInput) :
    w = ts.map symbol := by
  obtain ⟨us, hus, rfl⟩ := h.exists_tokens
  rw [ahead_of_end h.complete_right hend, hs] at hus
  rw [(List.append_inj' hus rfl).1]

namespace Parsing

variable {ds : List (String × VarType)} {s : Stream} {ts : List Token} {u : Token}

theorem expressionOnly_sound {e : Expr} {m' : State} (hc : Token.Complete s.ahead)
    (hs : s.ahead = ts ++ [u]) (h : expressionOnly ⟨s, ds⟩ = .ok e m') :
    ∃ d : Derivation .assignment, d.word = ts.map symbol ∧ (∀ x ∈ d.word, x.Fits) ∧
      e.bare = d.tree := by
  obtain ⟨e', m, he, hrest⟩ := bind_eq_ok_iff.mp h
  obtain ⟨s', rfl, ⟨d, hp, htree, hfits⟩, -⟩ := expression_sound hc he
  obtain ⟨t, m₂, hend, hret⟩ := bind_eq_ok_iff.mp hrest
  cases hret
  exact ⟨d, hp.eq_of_end hs (expect_end_eq_ok hend).1, hfits, htree⟩

theorem expressionOnly_complete (d : Derivation .assignment) (hnear : s.Near)
    (hc : Token.Complete s.ahead) (hs : s.ahead = ts ++ [u]) (hu : u.kind = .endOfInput)
    (hword : d.word = ts.map symbol) (hfits : ∀ x ∈ d.word, x.Fits) :
    ∃ e m', expressionOnly ⟨s, ds⟩ = .ok e m' ∧ e.bare = d.tree := by
  obtain ⟨hp, hahead⟩ := Passes.front hc hs (List.cons_ne_nil u [])
  have hcur := Stream.current_of_ahead hahead
  rw [← hword] at hp
  obtain ⟨e, he, htree⟩ := @expression_complete 0 ds d _ _ (.of_near hnear _) hp hfits (by
    intro op
    rw [hcur, hu]
    exact nofun)
  refine ⟨e, ⟨s.skip ts.length, ds⟩, ?_, htree⟩
  unfold expressionOnly
  rw [bind_of_ok he, bind_of_ok (run_expect_end hahead hu)]
  rfl

/-- The sources that are read as expressions are those whose tokens are a word of the grammar
with literals that have values. The expression that is read is the tree of the word's only
derivation. -/
theorem parseExpression_exact (source : String) (hsize : source.utf8ByteSize < Span.limit) :
    ∃ buffer ts, Buffer.ofSource source = .ok buffer ∧
      buffer.tokens.toList = ts ++ [Token.endOfInput source.utf8ByteSize] ∧
      (∀ t ∈ ts, t.kind ≠ .endOfInput) ∧
      ((∃ e, (parseExpression buffer).outcome = .ok e) ↔
        ∃ d : Derivation .assignment, d.word = ts.map symbol ∧ ∀ x ∈ d.word, x.Fits) ∧
      ∀ e, (parseExpression buffer).outcome = .ok e →
        ∃ d : Derivation .assignment, d.word = ts.map symbol ∧
          (∀ d' : Derivation .assignment, d'.word = ts.map symbol → d' = d) ∧
          e.bare = d.tree := by
  obtain ⟨ts, htokens, hbuffer, hspans⟩ := Token.exists_buffer hsize
  obtain ⟨s, hstream, hahead, hnear⟩ := Token.exists_stream ts source.utf8ByteSize
  have hc : Token.Complete s.ahead := hahead ▸ htokens.complete _
  refine ⟨_, ts, hbuffer, by simp [Buffer.ofTokens], htokens.kind_ne_endOfInput, ?_, ?_⟩
  · constructor
    · rintro ⟨e, he⟩
      obtain ⟨m', hrun⟩ := (outcome_parse_eq_ok_iff hstream).mp he
      obtain ⟨d, hword, hfits, -⟩ := expressionOnly_sound hc hahead hrun
      exact ⟨d, hword, hfits⟩
    · rintro ⟨d, hword, hfits⟩
      obtain ⟨e, m', hrun, -⟩ :=
        @expressionOnly_complete [] s ts _ d (hnear hspans hsize) hc hahead rfl hword hfits
      exact ⟨e, (outcome_parse_eq_ok_iff hstream).mpr ⟨m', hrun⟩⟩
  · intro e he
    obtain ⟨m', hrun⟩ := (outcome_parse_eq_ok_iff hstream).mp he
    obtain ⟨d, hword, -, htree⟩ := expressionOnly_sound hc hahead hrun
    refine ⟨d, hword, ?_, htree⟩
    intro d' hword'
    exact d'.eq_of_word_eq d (hword'.trans hword.symm)

/-- An assignment of two subtractions, derived as the one of `1 - 2` from a name cannot be. -/
def subtractions : Derivation .assignment :=
  .assign (.group (.name "a")) (.ofComparison (.ofSum (.add (.add (.ofProduct (.ofPrimary
    (.name "b"))) .subtract rfl (.ofPrimary (.integer "1"))) .subtract rfl
    (.ofPrimary (.integer "2")))))

theorem parseExpression_exact_subtractions :
    "(a) = b - 1 - 2".utf8ByteSize < Span.limit ∧
      ∃ buffer e, Buffer.ofSource "(a) = b - 1 - 2" = .ok buffer ∧
        (parseExpression buffer).outcome = .ok e ∧ e.bare = subtractions.tree := by
  have hsize : "(a) = b - 1 - 2".utf8ByteSize < Span.limit := by decide
  obtain ⟨buffer, ts, hbuffer, htokens, -, hiff, htree⟩ := parseExpression_exact _ hsize
  have hsymbols : (Buffer.ofSource "(a) = b - 1 - 2").toOption.map (·.tokens.toList.map symbol) =
      some (subtractions.word ++ [.mark .endOfInput]) := by decide +kernel
  rw [hbuffer, Except.toOption, Option.map_some, htokens, List.map_append,
    Option.some.injEq] at hsymbols
  have hword : subtractions.word = ts.map symbol := (List.append_inj' hsymbols rfl).1.symm
  obtain ⟨e, he⟩ := hiff.mpr ⟨subtractions, hword, by decide⟩
  obtain ⟨d, -, hunique, hbare⟩ := htree e he
  rw [← hunique subtractions hword] at hbare
  exact ⟨hsize, buffer, e, hbuffer, he, hbare⟩

end Parsing

end Bukvar
