import Bukvar.Proofs.Parsing.Exactness
import Bukvar.Proofs.Parsing.ProgramCompleteness
import Bukvar.Proofs.Parsing.ProgramSoundness

/-!
# Exactly the grammar of programs is read

A source is read as a program when its tokens are a word of the grammar whose literals have
values and whose names are declared before they are read. What is read is the tree of the only
derivation of that word.

* `program_of_tokens`, `exists_program_of_tokens`: reading a stream to its end.
* `parseProgram_exact`: reading a source.
-/

namespace Bukvar.Parsing

open Token (Stream Buffer)
open Grammar (Symbol symbol Derivation Phrase programWord)

variable {s : Stream} {ts : List Token} {u : Token}

theorem program_of_tokens {body : Program} {m' : State} (hc : Token.Complete s.ahead)
    (hs : s.ahead = ts ++ [u]) (h : program ⟨s, []⟩ = .ok body m') :
    ∃ b : Phrase .block, b.Valid ∧ programWord b = ts.map symbol ∧
      (∀ x ∈ programWord b, x.Fits) ∧ Grammar.Announced b.mentions ∧
      bareBlock body = b.tree [] := by
  obtain ⟨b, hp, hfits, hv, hannounced, htree, hend⟩ := program_sound hc h
  exact ⟨b, hv, hp.eq_of_end hs hend, hfits, hannounced, htree⟩

theorem exists_program_of_tokens {b : Phrase .block} (hnear : s.Near)
    (hc : Token.Complete s.ahead) (hs : s.ahead = ts ++ [u]) (hu : u.kind = .endOfInput)
    (hv : b.Valid) (hword : programWord b = ts.map symbol)
    (hfits : ∀ x ∈ programWord b, x.Fits) (hannounced : Grammar.Announced b.mentions) :
    ∃ body m', program ⟨s, []⟩ = .ok body m' := by
  obtain ⟨hp, hahead⟩ := Passes.front hc hs (List.cons_ne_nil u [])
  have hcur := Stream.current_of_ahead hahead
  rw [← hword] at hp
  obtain ⟨body, m', hrun, -⟩ := program_complete b hnear hp hfits hv hannounced (hcur ▸ hu)
  exact ⟨body, m', hrun⟩

/-- The sources that are read as programs are those whose tokens are a word of the grammar with
literals that have values and names that are declared before they are read. The program that is
read is the tree of the word's only derivation. -/
theorem parseProgram_exact (source : String) (hsize : source.utf8ByteSize < Span.limit) :
    ∃ buffer ts, Buffer.ofSource source = .ok buffer ∧
      buffer.tokens.toList = ts ++ [Token.endOfInput source.utf8ByteSize] ∧
      (∀ t ∈ ts, t.kind ≠ .endOfInput) ∧
      ((∃ p, (parseProgram buffer).outcome = .ok p) ↔
        ∃ b : Phrase .block, b.Valid ∧ programWord b = ts.map symbol ∧
          (∀ x ∈ programWord b, x.Fits) ∧ Grammar.Announced b.mentions) ∧
      ∀ p, (parseProgram buffer).outcome = .ok p →
        ∃ b : Phrase .block, b.Valid ∧ programWord b = ts.map symbol ∧
          (∀ b' : Phrase .block, b'.Valid → programWord b' = ts.map symbol → b' = b) ∧
          bareBlock p = b.tree [] := by
  obtain ⟨ts, htokens, hbuffer, hspans⟩ := Token.exists_buffer hsize
  obtain ⟨s, hstream, hahead, hnear⟩ := Token.exists_stream ts source.utf8ByteSize
  have hc : Token.Complete s.ahead := hahead ▸ htokens.complete _
  refine ⟨_, ts, hbuffer, by simp [Buffer.ofTokens], htokens.kind_ne_endOfInput, ?_, ?_⟩
  · constructor
    · rintro ⟨p, hp⟩
      obtain ⟨m', hrun⟩ := (outcome_parse_eq_ok_iff hstream).mp hp
      obtain ⟨b, hv, hword, hfits, hannounced, -⟩ := program_of_tokens hc hahead hrun
      exact ⟨b, hv, hword, hfits, hannounced⟩
    · rintro ⟨b, hv, hword, hfits, hannounced⟩
      obtain ⟨p, m', hrun⟩ := exists_program_of_tokens (hnear hspans hsize) hc hahead rfl hv hword
        hfits hannounced
      exact ⟨p, (outcome_parse_eq_ok_iff hstream).mpr ⟨m', hrun⟩⟩
  · intro p hp
    obtain ⟨m', hrun⟩ := (outcome_parse_eq_ok_iff hstream).mp hp
    obtain ⟨b, hv, hword, -, -, htree⟩ := program_of_tokens hc hahead hrun
    refine ⟨b, hv, hword, ?_, htree⟩
    intro b' hv' hword'
    exact Grammar.eq_of_programWord_eq hv' hv (hword'.trans hword.symm)

/-- A loop with a loop inside that starts with its condition, and its own condition behind it. -/
def nestedLoops : Phrase .block :=
  .cons (.declare .integer "x" none) (.cons (.whileAfter
    (.cons (.assign "x" number) (.cons (.whileBefore name (.cons (.read "x") .nil)) .nil)) name)
    .nil)
where
  name : Grammar.Clause := .ofComparison (.ofSum (.ofProduct (.ofPrimary (.name "x"))))
  number : Grammar.Clause := .ofComparison (.ofSum (.ofProduct (.ofPrimary (.integer "1"))))

theorem parseProgram_exact_nestedLoops :
    "начало цел x; нц x = 1; пока x нц прочитать x; кц пока x кц конец".utf8ByteSize <
        Span.limit ∧
      ∃ buffer p, Buffer.ofSource
          "начало цел x; нц x = 1; пока x нц прочитать x; кц пока x кц конец" = .ok buffer ∧
        (parseProgram buffer).outcome = .ok p ∧ bareBlock p = nestedLoops.tree [] := by
  have hsize : "начало цел x; нц x = 1; пока x нц прочитать x; кц пока x кц конец".utf8ByteSize <
      Span.limit := by decide
  obtain ⟨buffer, ts, hbuffer, htokens, -, hiff, htree⟩ := parseProgram_exact _ hsize
  have hsymbols : (Buffer.ofSource
      "начало цел x; нц x = 1; пока x нц прочитать x; кц пока x кц конец").toOption.map
        (·.tokens.toList.map symbol) = some (programWord nestedLoops ++ [.mark .endOfInput]) := by
    decide +kernel
  rw [hbuffer, Except.toOption, Option.map_some, htokens, List.map_append,
    Option.some.injEq] at hsymbols
  have hword : programWord nestedLoops = ts.map symbol := (List.append_inj' hsymbols rfl).1.symm
  have hvalid : nestedLoops.Valid := by
    simp [nestedLoops, Phrase.Valid, Phrase.word, Grammar.Symbol.mark]
  have hannounced : Grammar.Announced nestedLoops.mentions :=
    (Grammar.cover_nil_iff _).mp ⟨rfl, trivial⟩
  obtain ⟨p, hp⟩ := hiff.mpr ⟨nestedLoops, hvalid, hword, by decide, hannounced⟩
  obtain ⟨b, -, -, hunique, hbare⟩ := htree p hp
  rw [← hunique nestedLoops hvalid hword] at hbare
  exact ⟨hsize, buffer, p, hbuffer, hp, hbare⟩

end Bukvar.Parsing
