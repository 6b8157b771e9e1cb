import Bukvar.Proofs.Decimal.Shape
import Bukvar.Proofs.Diagnostic.Blame
import Bukvar.Proofs.Parsing.ProgramParallel

/-!
# What a source is rejected for

Some problems are there for streams that come from elsewhere, and no source has them. A conversion
does not fail, because the parser converts only kinds that its own tables let through. A literal is
not malformed, because units are literals by their shapes. And tokens are missing only at the end,
since no source has the mark of the end anywhere else.

* `isTypeWord_iff`, `isSome_infixPowers?_iff`: the tables and the conversions agree on all kinds.
* `outOfRange_of_valueless`: a literal of the right shape has no value only if it is out of range.
* `rejected_for_source`: the problems of a source.
-/

namespace Bukvar

open Token (Buffer Kind Stream TokensOf)
open Diagnostic (Problem)

/-! ## Tables and conversions -/

theorem Token.Kind.isTypeWord_iff (kind : Kind) :
    kind.isTypeWord = true ↔ ∃ type, kind.toVarType = .ok type := by
  cases kind <;> simp [isTypeWord, toVarType]

theorem Parsing.isSome_infixPowers?_iff (kind : Kind) :
    (infixPowers? kind).isSome = true ↔ ∃ op, kind.toOperator = .ok op := by
  cases kind <;> simp [infixPowers?, Kind.toOperator]

/-! ## Literals -/

/-- A token of a literal has the shape of that literal. -/
def Token.Formed (t : Token) : Prop :=
  t.kind.hasText = true → t.kind ≠ .name → t.kind.shape t.text.toList = true

theorem Token.Formed.shape {t : Token} {kind : Kind} (h : t.Formed) (hkind : t.kind = kind)
    (htext : kind.hasText = true) (hname : kind ≠ .name) : kind.shape t.text.toList = true := by
  subst hkind
  exact h htext hname

/-- All tokens of a source are formed, with the mark of the end among them. -/
theorem Token.TokensOf.formed {source : String} {ts : List Token} (h : TokensOf source ts)
    (length : Nat) : ∀ t ∈ (Buffer.ofTokens ts length).tokens, t.Formed := by
  intro t ht htext hname
  simp only [Buffer.ofTokens, List.mem_toArray, List.mem_append, List.mem_singleton] at ht
  rcases ht with ht | rfl
  · rw [h.kinds t ht] at htext hname ⊢
    exact shape_of_classify htext hname
  · cases htext

namespace Parsing

theorem outOfRange_of_valueless {t : Token} {e : Decimal.LiteralError} (ht : t.Formed)
    (h : Valueless t e) : e = .outOfRange := by
  cases h with
  | integer hkind h => exact Decimal.outOfRange_of_readInteger (ht.shape hkind rfl nofun) h
  | double hkind h => exact Decimal.outOfRange_of_readDouble (ht.shape hkind rfl nofun) h
  | string hkind h =>
    -- A string in quotes always has a value.
    rw [unquote?_eq (ht.shape hkind rfl nofun)] at h
    cases h

/-- The tokens are formed. -/
def Scope.formed : Scope where
  token := Token.Formed
  problem p := p.isSyntactic = true ∨ p = .literalOutOfRange
  syntactic := .inl
  literal ht h := by
    rw [outOfRange_of_valueless ht h]
    exact .inr rfl

end Parsing

/-! ## Missing tokens -/

/-- Where no token of a source can be passed, the mark of the end is seen. -/
theorem Token.TokensOf.current_of_exhausted {source : String} {ts : List Token}
    (h : TokensOf source ts) {length : Nat} {s : Stream}
    (htokens : s.tokens = (Buffer.ofTokens ts length).tokens) (hs : s.Exhausted) :
    s.current = endOfInput length := by
  by_cases hend : s.tokens.size ≤ s.cursor
  · rw [Stream.current_eq_last hend]
    have hlast := s.getElem?_last
    rw [htokens] at hlast
    simpa [Buffer.ofTokens, eq_comm] using hlast
  · have hkind := hs.resolve_right hend
    have hmem := s.look_mem 0
    rw [htokens] at hmem
    simp only [Buffer.ofTokens, List.mem_toArray, List.mem_append, List.mem_singleton] at hmem
    rcases hmem with hmem | hmem
    · exact absurd hkind (h.kind_ne_endOfInput _ hmem)
    · exact hmem

/-! ## Problems of sources -/

/-- The problem can be one of the source: it is no failed conversion and no malformed literal, and
tokens are missing at the end alone. -/
structure Diagnostic.OfSource (source : String) (p : Located Problem) : Prop where
  external : ∀ failed, p.value ≠ .conversion failed
  formed : p.value ≠ .malformedLiteral
  atEnd : p.value = .outOfTokens → p.span = .empty source.utf8ByteSize

open Diagnostic (OfSource)

theorem Parsing.ofSource_of_formed {source : String} {p : Located Problem}
    (h : Scope.formed.problem p.value) : OfSource source p := by
  rcases h with h | h
  · refine ⟨?_, ?_, ?_⟩
    · intro failed he
      rw [he] at h
      cases h
    · intro he
      rw [he] at h
      cases h
    · intro he
      rw [he] at h
      cases h
  · obtain ⟨span, value⟩ := p
    cases h
    exact ⟨nofun, nofun, nofun⟩

/-- A reader that takes steps on the tokens of a source. -/
theorem Parsing.ofSource_of_parse {α : Type} {parser : Parser α} {source : String}
    {ts : List Token} {p : Located Problem} (h : TokensOf source ts)
    (hparser : InStep .formed parser parser)
    (hp : (parse parser (.ofTokens ts source.utf8ByteSize)).outcome = .error (.problem p)) :
    OfSource source p := by
  have hpos : 0 < (Buffer.ofTokens ts source.utf8ByteSize).tokens.size := by simp [Buffer.ofTokens]
  obtain ⟨s, hs, htokens, -⟩ := Buffer.exists_stream hpos
  have hends := hparser.run ⟨s, []⟩ (htokens ▸ h.formed source.utf8ByteSize)
  cases hrun : parser ⟨s, []⟩ with
  | ok a n =>
    rw [parse_of_ok hs hrun] at hp
    cases hp
  | error e n =>
    rw [parse_of_error hs hrun] at hp
    cases hp
    rw [hrun] at hends
    obtain ⟨honward, hproblem | ⟨hexhausted, rfl⟩⟩ := hends
    · exact ofSource_of_formed hproblem
    · refine ⟨?_, ?_, ?_⟩
      · intro failed he
        cases he
      · intro he
        cases he
      · intro _
        rw [h.current_of_exhausted (honward.tokens.trans htokens) hexhausted]
        rfl

/-- A source of less than four gigabytes is rejected for its own mistakes alone. The tables of the
parser let through exactly the kinds that can be converted, and a literal of a source has a value or
is out of range. -/
theorem rejected_for_source (source : String) (hsize : source.utf8ByteSize < Span.limit)
    (c : Compiler) :
    (∀ kind : Kind, (kind.isTypeWord = true ↔ ∃ type, kind.toVarType = .ok type) ∧
        ((Parsing.infixPowers? kind).isSome = true ↔ ∃ op, kind.toOperator = .ok op)) ∧
      ∃ buffer, Buffer.ofSource source = .ok buffer ∧
        (∀ t ∈ buffer.tokens, ∀ e, Parsing.Valueless t e → e = .outOfRange) ∧
        (∀ r, (c.compile source).outcome = .rejected r →
          ∃ p, r = .invalid p ∧ OfSource source p) ∧
        ∀ p, (Parsing.parseExpression buffer).outcome = .error (.problem p) →
          OfSource source p := by
  obtain ⟨ts, htokens, hbuffer, -⟩ := Token.exists_buffer hsize
  refine ⟨fun kind => ⟨kind.isTypeWord_iff, Parsing.isSome_infixPowers?_iff kind⟩, _, hbuffer,
    ?_, ?_, ?_⟩
  · intro t ht e
    exact Parsing.outOfRange_of_valueless (htokens.formed _ t ht)
  · intro r hr
    change Outcome.map _ (c.parse source).outcome = _ at hr
    rw [(c.parse_of_ofSource hbuffer).1] at hr
    cases hrun : (Parsing.parseProgram (.ofTokens ts source.utf8ByteSize)).outcome with
    | ok program =>
      rw [hrun] at hr
      cases hr
    | error e =>
      rw [hrun] at hr
      cases e with
      | fault f => cases hr
      | problem p =>
        have hp := Parsing.ofSource_of_parse htokens Parsing.parallel_program hrun
        refine ⟨p, ?_, hp⟩
        cases hr
        obtain ⟨span, value⟩ := p
        cases value with
        | conversion failed => exact absurd rfl (hp.external failed)
        | _ => rfl
  · intro p hp
    exact Parsing.ofSource_of_parse htokens Parsing.parallel_expressionOnly hp

/-- An assignment that breaks off. -/
theorem rejected_for_source_unfinished :
    "начало x =".utf8ByteSize < Span.limit ∧
      ∃ p, ((Compiler.fresh {}).compile "начало x =").outcome = .rejected (.invalid p) ∧
        p.value = .outOfTokens ∧ p.span = .empty 16 := by
  have hsize : "начало x =".utf8ByteSize < Span.limit := by decide
  obtain ⟨-, buffer, -, -, hcompile, -⟩ := rejected_for_source _ hsize (Compiler.fresh {})
  have hrejected : ((Compiler.fresh {}).compile "начало x =").outcome =
      .rejected (.invalid ⟨.empty 16, .outOfTokens⟩) := by
    decide +kernel
  obtain ⟨p, hp, hsource⟩ := hcompile _ hrejected
  cases hp
  exact ⟨hsize, _, hrejected, rfl, hsource.atEnd rfl⟩

end Bukvar
