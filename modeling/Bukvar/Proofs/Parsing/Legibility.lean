import Bukvar.Compiler
import Bukvar.Proofs.Grammar.Legible
import Bukvar.Proofs.Parsing.ProgramExactness

/-!
# Programs of sources are legible

The names of a program that was read from a source are texts of the source's name tokens, and
its literals are what the literals of the source denote.

* `Compiler.exists_phrase_of_parse`: the derivation of a program that a compiler has read.
* `Compiler.legible_of_parse`: what can stand in it.
-/

namespace Bukvar

open Token (Buffer TokensOf)
open Grammar (Symbol symbol)

namespace Token

/-- The string between the quotes of a unit holds no quote and does not leave its line. -/
theorem endsQuote_of_mem_stringOf {text : String} (hunit : IsUnit text.toList)
    (hstring : isString text.toList = true) :
    ∀ c ∈ (Text.stringOf text).toList, endsQuote c = false := by
  rw [Text.stringOf, String.toList_ofList]
  generalize text.toList = cs at hunit hstring
  cases hunit with
  | @standalone c h =>
    intro x hx
    cases hx
  | @quoted body h => simpa using h
  | @word c cs hb hs h =>
    obtain ⟨body, hbody⟩ := exists_of_isString hstring
    have hquote : '"' ∈ cs := by
      rw [(List.cons.inj hbody).2]
      simp
    cases h _ hquote

variable {source : String} {ts : List Token}

theorem TokensOf.legible_symbol (h : TokensOf source ts) {named : String → Prop} {t : Token}
    (ht : t ∈ ts) (hnamed : t.kind = .name → named t.text) (hfits : (symbol t).Fits) :
    (symbol t).Legible named := by
  refine ⟨hfits, ?_, ?_⟩
  · intro hname
    rw [Grammar.text_symbol (by rw [show t.kind = .name from hname]; rfl)]
    exact hnamed hname
  · intro hstring
    have hkind : classify t.text = .stringLiteral := (h.kinds t ht).symm.trans hstring
    have hshape := @shape_of_classify t.text (by rw [hkind]; rfl) (by rw [hkind]; decide)
    rw [hkind] at hshape
    rw [Grammar.text_symbol (by rw [show t.kind = .stringLiteral from hstring]; rfl)]
    exact endsQuote_of_mem_stringOf (h.isUnit ht) hshape

end Token

theorem Outcome.exists_of_map {α β : Type} {f : α → β} {outcome : Outcome α} {b : β}
    (h : outcome.map f = .done b) : ∃ a, outcome = .done a ∧ f a = b := by
  cases outcome with
  | done a => exact ⟨a, rfl, Outcome.done.inj h⟩
  | rejected r => cases h
  | fault e => cases h

theorem Compiler.exists_buffer_of_parse {c : Compiler} {source : String} {p : Program}
    (h : (c.parse source).outcome = .done p) :
    ∃ buffer, Buffer.ofSource source = .ok buffer ∧
      (Parsing.parseProgram buffer).outcome = .ok p := by
  unfold parse at h
  rw [buffer_reset] at h
  cases hfill : Buffer.empty.fill source with
  | error e =>
    rw [hfill] at h
    cases h
  | ok buffer =>
    rw [hfill] at h
    refine ⟨buffer, hfill, ?_⟩
    change Outcome.ofParser (Parsing.parseProgram buffer).outcome = .done p at h
    generalize (Parsing.parseProgram buffer).outcome = outcome at h
    cases outcome with
    | ok q =>
      cases h
      rfl
    | error e => cases e <;> cases h

/-- The tokens of a source that was read as a program, and their derivation. -/
theorem Compiler.exists_phrase_of_parse {c : Compiler} {source : String} {p : Program}
    (h : (c.parse source).outcome = .done p) :
    ∃ (ts : List Token) (b : Grammar.Phrase .block), TokensOf source ts ∧
      Buffer.ofSource source = .ok (.ofTokens ts source.utf8ByteSize) ∧ b.Valid ∧
      Grammar.programWord b = ts.map symbol ∧ (∀ x ∈ Grammar.programWord b, x.Fits) ∧
      Grammar.Announced b.mentions ∧ bareBlock p = b.tree [] := by
  obtain ⟨buffer, hbuffer, hread⟩ := exists_buffer_of_parse h
  obtain ⟨ts, htokens, rfl⟩ := Token.exists_tokens hbuffer
  obtain ⟨s, hstream, hahead, -⟩ := Token.exists_stream ts source.utf8ByteSize
  have hc : Token.Complete s.ahead := hahead ▸ htokens.complete _
  obtain ⟨m', hrun⟩ := (Parsing.outcome_parse_eq_ok_iff hstream).mp hread
  obtain ⟨b, hb⟩ := Parsing.program_of_tokens hc hahead hrun
  exact ⟨ts, b, htokens, hbuffer, hb⟩

/-- A program that was read is legible, with restrictions on names that the name tokens of its
source obey. -/
theorem Compiler.legible_of_parse {c : Compiler} {source : String} {p : Program}
    (h : (c.parse source).outcome = .done p) :
    ∃ ts, TokensOf source ts ∧ Buffer.ofSource source = .ok (.ofTokens ts source.utf8ByteSize) ∧
      ∀ named : String → Prop, (∀ t ∈ ts, t.kind = .name → named t.text) →
        LegibleBlock named p := by
  obtain ⟨ts, b, htokens, hbuffer, -, hword, hfits, -, htree⟩ := exists_phrase_of_parse h
  refine ⟨ts, htokens, hbuffer, ?_⟩
  intro named hnamed
  rw [← legible_bareBlock, htree]
  apply b.legible_tree []
  intro x hx
  have hx' : x ∈ Grammar.programWord b := by simp [Grammar.programWord, hx]
  have hfits' := hfits x hx'
  rw [hword] at hx'
  obtain ⟨t, ht, rfl⟩ := List.mem_map.mp hx'
  exact htokens.legible_symbol ht (hnamed t ht) hfits'

end Bukvar
