import Bukvar.Parsing.Run
import Bukvar.Proofs.Parsing.Ahead
import Bukvar.Proofs.Token.Units

/-!
# Streams of sources

The tokens of a source are its units, each with the kind of its text, and the mark of the end
behind them. A source of less than four gigabytes has tokens, and they lie near each other.

* `exists_tokens`, `exists_buffer`: the tokens of a source.
* `outcome_parse_eq_ok_iff`, `exists_run_of_parse`: reading a buffer from its start.
-/

namespace Bukvar.Token

/-- The tokens of a source, without the mark behind them. -/
structure TokensOf (source : String) (ts : List Token) : Prop where
  texts : ts.map Token.text = (units source.toList).map String.ofList
  kinds : ∀ t ∈ ts, t.kind = classify t.text

/-- The buffer of tokens and the mark behind them, of which none has been passed. -/
def Buffer.ofTokens (ts : List Token) (length : Nat) : Buffer :=
  ⟨(ts ++ [endOfInput length]).toArray, 0⟩

theorem toToken_eq_ok {l : Lexeme} {t : Token} (h : l.toToken = .ok t) :
    (t.text = String.ofList l.text ∧ t.kind = classify t.text) ∧
      t.span.lo = l.offset ∧ t.span.hi = l.offset + Text.byteLength l.text := by
  unfold Lexeme.toToken at h
  cases hs : Span.ofBounds l.offset (l.offset + Text.byteLength l.text) with
  | error e =>
    rw [hs] at h
    cases h
  | ok span =>
    rw [hs] at h
    cases h
    exact ⟨⟨rfl, rfl⟩, Span.ofBounds_eq_ok_iff.mp hs⟩

/-- A unit has a token if its length is that of some span, wherever it starts. -/
theorem exists_toToken {l : Lexeme} (h : Text.byteLength l.text < Span.limit) :
    ∃ t, l.toToken = .ok t ∧ t.span.hi = l.offset + Text.byteLength l.text := by
  have hspan : Span.ofBounds l.offset (l.offset + Text.byteLength l.text) =
      .ok ⟨l.offset, Text.byteLength l.text, h⟩ :=
    Span.ofBounds_eq_ok_iff.mpr ⟨rfl, rfl⟩
  refine ⟨⟨classify (String.ofList l.text), String.ofList l.text,
    ⟨l.offset, Text.byteLength l.text, h⟩⟩, ?_, rfl⟩
  unfold Lexeme.toToken
  rw [hspan]
  rfl

theorem mapM_toToken {ls : List Lexeme} {ts : List Token} (h : ls.mapM Lexeme.toToken = .ok ts) :
    ts.map Token.text = ls.map (String.ofList ·.text) ∧
      ∀ t ∈ ts, ∃ l ∈ ls, l.toToken = .ok t := by
  induction ls generalizing ts with
  | nil =>
    cases h
    simp
  | cons l ls ih =>
    rw [List.mapM_cons] at h
    cases ht : l.toToken with
    | error e =>
      rw [ht] at h
      cases h
    | ok t =>
      cases hts : ls.mapM Lexeme.toToken with
      | error e =>
        rw [ht, hts] at h
        cases h
      | ok us =>
        rw [ht, hts] at h
        cases h
        obtain ⟨htexts, hlexemes⟩ := ih hts
        refine ⟨by rw [List.map_cons, List.map_cons, (toToken_eq_ok ht).1.1, htexts], ?_⟩
        intro u hu
        rcases List.mem_cons.mp hu with rfl | hu
        · exact ⟨l, List.mem_cons_self .., ht⟩
        · obtain ⟨l', hl', hu⟩ := hlexemes u hu
          exact ⟨l', List.mem_cons_of_mem l hl', hu⟩

theorem exists_mapM_toToken {ls : List Lexeme}
    (h : ∀ l ∈ ls, Text.byteLength l.text < Span.limit) :
    ∃ ts, ls.mapM Lexeme.toToken = .ok ts ∧
      ∀ t ∈ ts, ∃ l ∈ ls, t.span.hi = l.offset + Text.byteLength l.text := by
  induction ls with
  | nil => exact ⟨[], rfl, by simp⟩
  | cons l ls ih =>
    obtain ⟨t, ht, hspan⟩ := exists_toToken (h l (List.mem_cons_self ..))
    obtain ⟨ts, hts, hspans⟩ := ih fun x hx => h x (List.mem_cons_of_mem _ hx)
    refine ⟨t :: ts, ?_, ?_⟩
    · rw [List.mapM_cons, ht, hts]
      rfl
    · intro u hu
      rcases List.mem_cons.mp hu with rfl | hu
      · exact ⟨l, List.mem_cons_self .., hspan⟩
      · obtain ⟨x, hx, hhi⟩ := hspans u hu
        exact ⟨x, List.mem_cons_of_mem _ hx, hhi⟩

theorem ofSource_eq (source : String) :
    Buffer.ofSource source = (tokenize source).map fun tokens => ⟨tokens.toArray, 0⟩ := rfl

theorem tokensOf_of_mapM {source : String} {offset : Nat} {ts : List Token}
    (h : (lexemes offset source.toList).mapM Lexeme.toToken = .ok ts) : TokensOf source ts := by
  obtain ⟨htexts, hlexemes⟩ := mapM_toToken h
  constructor
  · rw [htexts, units, map_text_lexemes 0 offset, List.map_map]
    rfl
  · intro t ht
    obtain ⟨l, -, hl⟩ := hlexemes t ht
    exact (toToken_eq_ok hl).1.2

theorem ofSource_of_mapM {source : String} {ts : List Token}
    (h : (lexemes 0 source.toList).mapM Lexeme.toToken = .ok ts) :
    TokensOf source ts ∧ Buffer.ofSource source = .ok (.ofTokens ts source.utf8ByteSize) := by
  refine ⟨tokensOf_of_mapM h, ?_⟩
  rw [ofSource_eq, tokenize, h, Text.byteLength_toList]
  rfl

theorem exists_tokens {source : String} {buffer : Buffer}
    (h : Buffer.ofSource source = .ok buffer) :
    ∃ ts, TokensOf source ts ∧ buffer = .ofTokens ts source.utf8ByteSize := by
  cases hts : (lexemes 0 source.toList).mapM Lexeme.toToken with
  | error e =>
    rw [ofSource_eq, tokenize, hts] at h
    cases h
  | ok ts =>
    obtain ⟨htokens, hbuffer⟩ := ofSource_of_mapM hts
    rw [hbuffer] at h
    cases h
    exact ⟨ts, htokens, rfl⟩

/-- A source has tokens if none of its units is too long. -/
theorem exists_buffer_of_units {source : String}
    (h : ∀ u ∈ units source.toList, Text.byteLength u < Span.limit) :
    ∃ ts, TokensOf source ts ∧ Buffer.ofSource source = .ok (.ofTokens ts source.utf8ByteSize) ∧
      ∀ t ∈ ts, t.span.hi ≤ source.utf8ByteSize := by
  obtain ⟨ts, hts, hspans⟩ := @exists_mapM_toToken (lexemes 0 source.toList) (by
    intro l hl
    exact h l.text (List.mem_map_of_mem hl))
  obtain ⟨htokens, hbuffer⟩ := ofSource_of_mapM hts
  refine ⟨ts, htokens, hbuffer, ?_⟩
  intro t ht
  obtain ⟨l, hl, hhi⟩ := hspans t ht
  have := hi_le_of_mem_lexemes hl
  rw [Text.byteLength_toList] at this
  omega

/-- A source of less than four gigabytes has tokens. -/
theorem exists_buffer {source : String} (h : source.utf8ByteSize < Span.limit) :
    ∃ ts, TokensOf source ts ∧ Buffer.ofSource source = .ok (.ofTokens ts source.utf8ByteSize) ∧
      ∀ t ∈ ts, t.span.hi < Span.limit := by
  obtain ⟨ts, htokens, hbuffer, hspans⟩ := @exists_buffer_of_units source (by
    intro u hu
    have := byteLength_le_of_mem_units hu
    rw [Text.byteLength_toList] at this
    omega)
  refine ⟨ts, htokens, hbuffer, ?_⟩
  intro t ht
  have := hspans t ht
  omega

namespace TokensOf

variable {source : String} {ts : List Token}

theorem kind_ne_endOfInput (h : TokensOf source ts) : ∀ t ∈ ts, t.kind ≠ .endOfInput := by
  intro t ht
  rw [h.kinds t ht]
  exact classify_ne_endOfInput t.text

theorem regular (h : TokensOf source ts) : ∀ t ∈ ts, t.Regular := by
  intro t ht
  have hkind := h.kinds t ht
  constructor
  · intro hi
    have := @shape_of_classify t.text (by rw [← hkind, hi]; rfl) (by rw [← hkind, hi]; decide)
    rwa [← hkind, hi] at this
  · intro hs
    have := @shape_of_classify t.text (by rw [← hkind, hs]; rfl) (by rw [← hkind, hs]; decide)
    rwa [← hkind, hs] at this

theorem complete (h : TokensOf source ts) (length : Nat) :
    Complete (ts ++ [endOfInput length]) := by
  refine ⟨?_, ts, endOfInput length, rfl, rfl, h.kind_ne_endOfInput⟩
  intro t ht
  rcases List.mem_append.mp ht with ht | ht
  · exact h.regular t ht
  · rw [List.mem_singleton.mp ht]
    exact ⟨nofun, nofun⟩

theorem isUnit (h : TokensOf source ts) {t : Token} (ht : t ∈ ts) : IsUnit t.text.toList := by
  have hmem : t.text ∈ (units source.toList).map String.ofList := by
    rw [← h.texts]
    exact List.mem_map_of_mem ht
  obtain ⟨u, hu, htext⟩ := List.mem_map.mp hmem
  rw [← htext, String.toList_ofList]
  exact isUnit_of_mem_units hu

end TokensOf

/-- The stream of a buffer from its start. -/
theorem exists_stream (ts : List Token) (length : Nat) :
    ∃ s : Stream, (Buffer.ofTokens ts length).stream? = some s ∧
      s.ahead = ts ++ [endOfInput length] ∧
      ((∀ t ∈ ts, t.span.hi < Span.limit) → length < Span.limit → s.Near) := by
  have hpos : 0 < (Buffer.ofTokens ts length).tokens.size := by simp [Buffer.ofTokens]
  refine ⟨⟨_, 0, hpos⟩, dif_pos hpos, ?_, ?_⟩
  · simp [Stream.ahead, Buffer.ofTokens]
  · intro hts hlength t ht
    simp only [Buffer.ofTokens, List.mem_toArray, List.mem_append, List.mem_singleton] at ht
    rcases ht with ht | rfl
    · exact hts t ht
    · exact hlength

/-- What is computed from the buffer of a source shows that there is one. -/
theorem exists_of_ofSource {source : String} {β : Type} {f : Buffer → Option β} {b : β}
    (h : (Buffer.ofSource source).toOption.bind f = some b) :
    ∃ buffer, Buffer.ofSource source = .ok buffer ∧ f buffer = some b := by
  cases hbuffer : Buffer.ofSource source with
  | error e =>
    rw [hbuffer] at h
    cases h
  | ok buffer =>
    rw [hbuffer] at h
    exact ⟨buffer, rfl, h⟩

end Bukvar.Token

namespace Bukvar.Parsing

open Token (Buffer Stream)
open Diagnostic (Problem)

theorem outcome_parse_eq_ok_iff {α : Type} {parser : Parser α} {buffer : Buffer} {s : Stream}
    {a : α} (h : buffer.stream? = some s) :
    (parse parser buffer).outcome = .ok a ↔ ∃ state, parser ⟨s, []⟩ = .ok a state := by
  unfold parse
  rw [h]
  cases hp : parser ⟨s, []⟩ with
  | ok b state => simp [hp]
  | error e state => simp [hp]

/-- What was read from a buffer was read from a stream of its tokens. -/
theorem exists_run_of_parse {α : Type} {parser : Parser α} {buffer : Buffer} {a : α}
    (h : (parse parser buffer).outcome = .ok a) :
    ∃ s state, s.tokens = buffer.tokens ∧ parser ⟨s, []⟩ = .ok a state := by
  cases hs : buffer.stream? with
  | none =>
    unfold parse at h
    rw [hs] at h
    cases h
  | some s =>
    obtain ⟨state, hrun⟩ := (outcome_parse_eq_ok_iff hs).mp h
    refine ⟨s, state, ?_, hrun⟩
    unfold Buffer.stream? at hs
    split at hs
    next =>
      cases hs
      rfl
    next => cases hs

/-- The problem at which a run stopped. -/
def Run.problem? {α : Type} (run : Run α) : Option (Located Problem) :=
  match run.outcome with
  | .error (.problem p) => some p
  | _ => none

theorem Run.outcome_of_problem? {α : Type} {run : Run α} {p : Located Problem}
    (h : run.problem? = some p) : run.outcome = .error (.problem p) := by
  unfold problem? at h
  split at h
  next p' houtcome =>
    cases h
    exact houtcome
  next => cases h

/-- What is computed from the value of a run shows that there is one. -/
theorem Run.exists_of_outcome {α β : Type} {run : Run α} {f : α → β} {b : β}
    (h : run.outcome.toOption.map f = some b) : ∃ a, run.outcome = .ok a ∧ f a = b := by
  cases houtcome : run.outcome with
  | error e =>
    rw [houtcome] at h
    cases h
  | ok a =>
    rw [houtcome] at h
    exact ⟨a, rfl, Option.some.inj h⟩

end Bukvar.Parsing
