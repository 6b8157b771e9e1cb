import Bukvar.Compiler
import Bukvar.Proofs.Parsing.ProgramSafety
import Bukvar.Proofs.Token.Segmentation

/-!
# Every problem has a place in the source

The stretch of a source that is to blame for a problem starts where a token starts and ends where
that token or a later one ends (`Framed`). Tokens start and end between characters, so such a
stretch has a line and a column, and a rejection can always be shown.

* `framed_cover`: the least span that holds two such stretches is one, too.
* `parse_cases`: what a run over a stream leaves, without faults.
* `outcome_presentable`: the answers to a source.
-/

namespace Bukvar

open Token (Buffer Kind Stream)
open Text (byteLength takeBytes?)

/-! ## Stretches between tokens -/

/-- The span starts where a token starts, and ends where that token or a later one ends. -/
def Framed (tokens : Array Token) (span : Span) : Prop :=
  ∃ (i j : Nat) (first last : Token), i ≤ j ∧ tokens[i]? = some first ∧ tokens[j]? = some last ∧
    span.lo = first.span.lo ∧ span.hi = last.span.hi

/-- Tokens that follow each other within the first four gigabytes of a source. -/
structure InOrder (tokens : Array Token) : Prop where
  near : ∀ t ∈ tokens, t.span.hi < Span.limit
  ordered : tokens.toList.Pairwise fun t u => t.span.hi ≤ u.span.lo

variable {tokens : Array Token}

theorem framed_token {t : Token} (h : t ∈ tokens) : Framed tokens t.span := by
  obtain ⟨i, hi⟩ := Array.getElem?_of_mem h
  exact ⟨i, i, t, t, Nat.le_refl i, hi, hi, rfl, rfl⟩

/-- A later token neither starts nor ends before an earlier one. -/
theorem InOrder.bounds_le (h : InOrder tokens) {i j : Nat} {t u : Token} (hij : i ≤ j)
    (ht : tokens[i]? = some t) (hu : tokens[j]? = some u) :
    t.span.lo ≤ u.span.lo ∧ t.span.hi ≤ u.span.hi := by
  by_cases hne : i = j
  · subst hne
    rw [ht, Option.some.injEq] at hu
    subst hu
    exact ⟨Nat.le_refl _, Nat.le_refl _⟩
  · obtain ⟨hi, hti⟩ := Array.getElem?_eq_some_iff.mp ht
    obtain ⟨hj, huj⟩ := Array.getElem?_eq_some_iff.mp hu
    have hle := List.pairwise_iff_getElem.mp h.ordered i j (by simpa using hi) (by simpa using hj)
      (by omega)
    simp only [Array.getElem_toList, hti, huj] at hle
    have := t.span.lo_le_hi
    have := u.span.lo_le_hi
    omega

theorem framed_cover (h : InOrder tokens) {a b : Span} (ha : Framed tokens a)
    (hb : Framed tokens b) : ∃ c, a.cover b = .ok c ∧ Framed tokens c := by
  obtain ⟨i, j, t, u, hij, ht, hu, halo, hahi⟩ := ha
  obtain ⟨i', j', t', u', hij', ht', hu', hblo, hbhi⟩ := hb
  have hnear := h.near u (Array.mem_of_getElem? hu)
  have hnear' := h.near u' (Array.mem_of_getElem? hu')
  obtain ⟨c, hc⟩ := Span.exists_cover (hahi ▸ hnear) (hbhi ▸ hnear')
  obtain ⟨hlo, hhi⟩ := Span.cover_eq_ok_iff.mp hc
  refine ⟨c, hc, ?_⟩
  -- The earlier of the two first tokens and the later of the two last ones.
  have hfirst : ∃ first, tokens[min i i']? = some first ∧ c.lo = first.span.lo := by
    by_cases hle : i ≤ i'
    · have := (h.bounds_le hle ht ht').1
      exact ⟨t, by rwa [Nat.min_eq_left hle], by omega⟩
    · have := (h.bounds_le (Nat.le_of_not_le hle) ht' ht).1
      exact ⟨t', by rwa [Nat.min_eq_right (Nat.le_of_not_le hle)], by omega⟩
  have hlast : ∃ last, tokens[max j j']? = some last ∧ c.hi = last.span.hi := by
    by_cases hle : j ≤ j'
    · have := (h.bounds_le hle hu hu').2
      exact ⟨u', by rwa [Nat.max_eq_right hle], by omega⟩
    · have := (h.bounds_le (Nat.le_of_not_le hle) hu' hu).2
      exact ⟨u, by rwa [Nat.max_eq_left (Nat.le_of_not_le hle)], by omega⟩
  obtain ⟨first, hfirst, hclo⟩ := hfirst
  obtain ⟨last, hlast, hchi⟩ := hlast
  exact ⟨min i i', max j j', first, last, by omega, hfirst, hlast, hclo, hchi⟩

theorem spanned_framed {s : Stream} (h : InOrder s.tokens) : s.Spanned (Framed s.tokens) :=
  ⟨fun _ ht => framed_token ht, fun _ _ ha hb => framed_cover h ha hb⟩

/-! ## The tokens of a source -/

/-- The token is cut out of the source at its span, which lies within the source and starts and ends
between characters. -/
def Token.SlicedFrom (source : String) (t : Token) : Prop :=
  t.span.hi ≤ source.utf8ByteSize ∧
    ∃ before, takeBytes? source.toList t.span.lo = some before ∧
      takeBytes? source.toList t.span.hi = some (before ++ t.text.toList)

variable {source : String} {ts : List Token}

theorem sliced_piece (h : Token.Segmentation 0 source.toList (ts.map Token.piece)) {t : Token}
    (ht : t ∈ ts) : t.SlicedFrom source := by
  obtain ⟨before, after, hsource, hlo, hhi, -⟩ := h.stands t.piece (List.mem_map_of_mem ht)
  change source.toList = before ++ (t.text.toList ++ after) at hsource
  change t.span.lo = 0 + byteLength before at hlo
  change t.span.hi = 0 + byteLength (before ++ t.text.toList) at hhi
  rw [Nat.zero_add] at hlo hhi
  refine ⟨?_, before, ?_, ?_⟩
  · rw [hhi, ← Text.byteLength_toList, hsource, ← List.append_assoc, Text.byteLength_append _ after]
    exact Nat.le_add_right _ _
  · rw [hlo, hsource, Text.takeBytes?_append]
  · rw [hhi, hsource, ← List.append_assoc, Text.takeBytes?_append]

theorem sliced_endOfInput (source : String) :
    (Token.endOfInput source.utf8ByteSize).SlicedFrom source := by
  have hall : takeBytes? source.toList source.utf8ByteSize = some source.toList :=
    Text.takeBytes?_eq_self _ _ (Nat.le_of_eq (Text.byteLength_toList source))
  refine ⟨Nat.le_refl _, source.toList, hall, ?_⟩
  change takeBytes? source.toList source.utf8ByteSize = some (source.toList ++ [])
  rw [hall, List.append_nil]

/-- The tokens of a source follow each other and are cut out of it. -/
theorem tokens_inOrder (hsize : source.utf8ByteSize < Span.limit)
    (h : Buffer.ofSource source = .ok (.ofTokens ts source.utf8ByteSize)) :
    InOrder (Buffer.ofTokens ts source.utf8ByteSize).tokens ∧
      ∀ t ∈ (Buffer.ofTokens ts source.utf8ByteSize).tokens, t.SlicedFrom source := by
  have hsegmentation := Token.segmentation_of_ofSource h
  have hsliced : ∀ t ∈ (Buffer.ofTokens ts source.utf8ByteSize).tokens, t.SlicedFrom source := by
    intro t ht
    simp only [Buffer.ofTokens, List.mem_toArray, List.mem_append, List.mem_singleton] at ht
    rcases ht with ht | rfl
    · exact sliced_piece hsegmentation ht
    · exact sliced_endOfInput source
  refine ⟨⟨?_, ?_⟩, hsliced⟩
  · intro t ht
    have := (hsliced t ht).1
    omega
  · refine List.pairwise_append.mpr ⟨List.pairwise_map.mp hsegmentation.ordered, ?_, ?_⟩
    · exact List.pairwise_singleton ..
    · intro t ht u hu
      rw [List.mem_singleton.mp hu]
      exact (sliced_piece hsegmentation ht).1

theorem Token.Buffer.exists_stream {buffer : Buffer} (h : 0 < buffer.tokens.size) :
    ∃ s, buffer.stream? = some s ∧ s.tokens = buffer.tokens ∧ s.cursor = buffer.cursor :=
  ⟨⟨buffer.tokens, buffer.cursor, h⟩, dif_pos h, rfl, rfl⟩

/-- The stream of a source of less than four gigabytes, from its first token on. -/
theorem exists_spanned (hsize : source.utf8ByteSize < Span.limit) :
    ∃ ts s, Token.TokensOf source ts ∧
      Buffer.ofSource source = .ok (.ofTokens ts source.utf8ByteSize) ∧
      (Buffer.ofTokens ts source.utf8ByteSize).stream? = some s ∧
      s.tokens = (Buffer.ofTokens ts source.utf8ByteSize).tokens ∧ s.cursor = 0 ∧
      s.Spanned (Framed s.tokens) := by
  obtain ⟨ts, htokens, hbuffer, -⟩ := Token.exists_buffer hsize
  have horder := (tokens_inOrder hsize hbuffer).1
  have hpos : 0 < (Buffer.ofTokens ts source.utf8ByteSize).tokens.size := by simp [Buffer.ofTokens]
  obtain ⟨s, hs, hstokens, hscursor⟩ := Token.Buffer.exists_stream hpos
  exact ⟨ts, s, htokens, hbuffer, hs, hstokens, hscursor, spanned_framed (hstokens ▸ horder)⟩

/-! ## Answers -/

namespace Parsing

theorem parse_of_ok {α : Type} {parser : Parser α} {buffer : Buffer} {s : Stream} {a : α}
    {n : State} (hs : buffer.stream? = some s) (h : parser ⟨s, []⟩ = .ok a n) :
    parse parser buffer = ⟨.ok a, n.stream.buffer⟩ := by
  simp only [parse, hs, h]

theorem parse_of_error {α : Type} {parser : Parser α} {buffer : Buffer} {s : Stream} {e : Failure}
    {n : State} (hs : buffer.stream? = some s) (h : parser ⟨s, []⟩ = .error e n) :
    parse parser buffer = ⟨.error e, n.stream.buffer⟩ := by
  simp only [parse, hs, h]

/-- A safe run over a buffer has a result or a problem, and only the cursor of the buffer moves. -/
theorem parse_cases {α : Type} {G : Span → Prop} {parser : Parser α} {buffer : Buffer} {s : Stream}
    {Q : α → State → Prop} (hs : buffer.stream? = some s) (hspans : s.Spanned G)
    (h : Safe G parser ⟨s, []⟩ Q) :
    (∃ (a : α) (n : State), parse parser buffer = ⟨.ok a, n.stream.buffer⟩ ∧
        s.Moves n.stream ∧ Q a n) ∨
      ∃ (p : Located Diagnostic.Problem) (n : State),
        parse parser buffer = ⟨.error (.problem p), n.stream.buffer⟩ ∧
        s.Moves n.stream ∧ G p.span := by
  have hkeeps := h hspans
  cases hrun : parser ⟨s, []⟩ with
  | ok a n =>
    rw [hrun] at hkeeps
    exact .inl ⟨a, n, parse_of_ok hs hrun, hkeeps.1, hkeeps.2⟩
  | error e n =>
    rw [hrun] at hkeeps
    cases e with
    | problem p => exact .inr ⟨p, n, parse_of_error hs hrun, hkeeps.1, hkeeps.2⟩
    | fault f => exact hkeeps.elim

end Parsing

/-- An answer that can be shown: no fault, and a rejection blames a stretch between tokens, which
has a line and a column in the source. -/
def Outcome.Presentable {α : Type} (source : String) (tokens : Array Token) : Outcome α → Prop
  | .done _ => True
  | .rejected r => Framed tokens r.span ∧ ∃ text, r.render source = .ok text
  | .fault _ => False

theorem Outcome.Presentable.map {α β : Type} (f : α → β) {outcome : Outcome α}
    (h : outcome.Presentable source tokens) : (outcome.map f).Presentable source tokens := by
  cases outcome <;> exact h

theorem exists_render {r : Diagnostic.Rejection}
    (hsliced : ∀ t ∈ tokens, t.SlicedFrom source) (h : Framed tokens r.span) :
    ∃ text, r.render source = .ok text := by
  obtain ⟨i, -, first, -, -, hfirst, -, hlo, -⟩ := h
  obtain ⟨-, before, hbefore, -⟩ := hsliced first (Array.mem_of_getElem? hfirst)
  unfold Diagnostic.Rejection.render Position.ofOffset
  rw [hlo, hbefore]
  exact ⟨_, rfl⟩

/-- The answer of a parser that is safe on the tokens of a source. -/
theorem presentable_parse {α : Type} {parser : Parsing.Parser α} {buffer : Buffer}
    {Q : α → Parsing.State → Prop} (hpos : 0 < buffer.tokens.size) (horder : InOrder buffer.tokens)
    (hsliced : ∀ t ∈ buffer.tokens, t.SlicedFrom source)
    (hsafe : ∀ m, Parsing.Safe (Framed buffer.tokens) parser m Q) :
    (Outcome.ofParser (Parsing.parse parser buffer).outcome).Presentable source buffer.tokens := by
  obtain ⟨s, hs, htokens, -⟩ := Token.Buffer.exists_stream hpos
  have hspans : s.Spanned (Framed buffer.tokens) := htokens ▸ spanned_framed (htokens ▸ horder)
  obtain ⟨a, n, hrun, -⟩ | ⟨p, n, hrun, -, hframed⟩ := Parsing.parse_cases hs hspans (hsafe _)
  · rw [hrun]
    trivial
  · rw [hrun]
    change Outcome.Presentable (α := α) source buffer.tokens (.rejected (.ofProblem p))
    rw [← Diagnostic.Rejection.ofProblem_span] at hframed
    exact ⟨hframed, exists_render hsliced hframed⟩

/-- A compiler reads the tokens of its source, whatever it did before. -/
theorem Compiler.parse_of_ofSource (c : Compiler) {buffer : Buffer}
    (h : Buffer.ofSource source = .ok buffer) :
    (c.parse source).outcome = .ofParser (Parsing.parseProgram buffer).outcome ∧
      (c.parse source).compiler = ⟨c.options, (Parsing.parseProgram buffer).buffer⟩ := by
  have hfill : c.reset.compiler.buffer.fill source = .ok buffer := h
  unfold parse
  rw [hfill]
  exact ⟨rfl, rfl⟩

/-- Every source of less than four gigabytes is answered without a fault, and where it is rejected
the rejection can be shown. -/
theorem outcome_presentable (source : String) (hsize : source.utf8ByteSize < Span.limit)
    (c : Compiler) :
    ∃ buffer, Buffer.ofSource source = .ok buffer ∧
      (∀ t ∈ buffer.tokens, t.SlicedFrom source) ∧
      (c.compile source).outcome.Presentable source buffer.tokens ∧
      (c.parse source).outcome.Presentable source buffer.tokens ∧
      (Outcome.ofParser (Parsing.parseExpression buffer).outcome).Presentable source
        buffer.tokens := by
  obtain ⟨ts, -, hbuffer, -⟩ := Token.exists_buffer hsize
  obtain ⟨horder, hsliced⟩ := tokens_inOrder hsize hbuffer
  have hpos : 0 < (Buffer.ofTokens ts source.utf8ByteSize).tokens.size := by simp [Buffer.ofTokens]
  have hparse : (c.parse source).outcome.Presentable source
      (Buffer.ofTokens ts source.utf8ByteSize).tokens := by
    rw [(c.parse_of_ofSource hbuffer).1]
    exact presentable_parse hpos horder hsliced fun _ => Parsing.safe_program
  refine ⟨_, hbuffer, hsliced, hparse.map _, hparse, ?_⟩
  exact presentable_parse hpos horder hsliced fun _ => Parsing.safe_expressionOnly

/-- The second line of the source assigns to a sum, which takes several tokens. -/
theorem outcome_presentable_sum :
    "начало\nя = (x + 1) = 2; конец".utf8ByteSize < Span.limit ∧
      ∃ buffer r, Buffer.ofSource "начало\nя = (x + 1) = 2; конец" = .ok buffer ∧
        ((Compiler.fresh {}).compile "начало\nя = (x + 1) = 2; конец").outcome = .rejected r ∧
        Framed buffer.tokens r.span ∧
        r.render "начало\nя = (x + 1) = 2; конец" =
          .ok "2:5: syntax error: invalid assignment target" := by
  have hsize : "начало\nя = (x + 1) = 2; конец".utf8ByteSize < Span.limit := by decide
  obtain ⟨buffer, hbuffer, -, hcompile, -, -⟩ := outcome_presentable _ hsize (Compiler.fresh {})
  have hrejected : ((Compiler.fresh {}).compile "начало\nя = (x + 1) = 2; конец").outcome =
      .rejected (.invalid ⟨⟨18, 7, by decide⟩, .assignmentTarget⟩) := by
    decide +kernel
  rw [hrejected] at hcompile
  obtain ⟨hframed, text, htext⟩ := hcompile
  have hrender : (Diagnostic.Rejection.render (.invalid ⟨⟨18, 7, by decide⟩, .assignmentTarget⟩)
      "начало\nя = (x + 1) = 2; конец").toOption =
        some "2:5: syntax error: invalid assignment target" := by
    decide +kernel
  rw [htext, Except.toOption, Option.some.injEq] at hrender
  exact ⟨hsize, buffer, _, hbuffer, hrejected, hframed, hrender ▸ htext⟩

end Bukvar
