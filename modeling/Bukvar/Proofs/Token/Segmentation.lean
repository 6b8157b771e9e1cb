import Bukvar.Proofs.Parsing.Source

/-!
# The units of a source are its only segmentation

A segmentation is described without the splitting: its pieces are texts of the source at their
spans, each of them has the form of a unit where it stands (`UnitBefore`), they follow each other,
and only blanks lie outside them.

* `segmentation_iff`: the pieces of a segmentation are the units of the text.
* `tokens_segmentation`: the tokens of a source are a segmentation, and there is no other.
-/

namespace Bukvar

/-! ## Places in bytes -/

namespace Text

theorem byteLength_eq_zero {cs : List Char} : byteLength cs = 0 ↔ cs = [] := by
  cases cs with
  | nil => simp
  | cons c cs =>
    have := c.utf8Size_pos
    rw [byteLength_cons]
    constructor
    · intro h
      omega
    · intro h
      cases h

theorem byteLength_pos {cs : List Char} (h : cs ≠ []) : 0 < byteLength cs :=
  Nat.pos_of_ne_zero fun h0 => h (byteLength_eq_zero.mp h0)

/-- Of two first parts of a text the one with fewer bytes is the first part of the other. -/
theorem exists_append_of_byteLength_le {as bs as' bs' : List Char} (h : as ++ bs = as' ++ bs')
    (hle : byteLength as ≤ byteLength as') : ∃ m, as' = as ++ m ∧ bs = m ++ bs' := by
  rcases List.append_eq_append_iff.mp h with ⟨m, has, hbs⟩ | ⟨m, has, hbs⟩
  · exact ⟨m, has, hbs⟩
  · have hm : byteLength m = 0 := by
      rw [has, byteLength_append] at hle
      omega
    rw [byteLength_eq_zero] at hm
    subst hm
    exact ⟨[], by rw [has, List.append_nil, List.append_nil], hbs.symm⟩

end Text

namespace Token

open Text (isBlank byteLength)

/-! ## Segmentations -/

/-- The piece is the text at its span, in a text that starts at a byte offset, and has the form of
a unit there. -/
def Stands (offset : Nat) (cs : List Char) (p : Located String) : Prop :=
  ∃ before after, cs = before ++ (p.value.toList ++ after) ∧
    p.span.lo = offset + byteLength before ∧
    p.span.hi = offset + byteLength (before ++ p.value.toList) ∧ UnitBefore after p.value.toList

/-- A text that starts at a byte offset is divided into pieces, with blanks around them. -/
structure Segmentation (offset : Nat) (cs : List Char) (pieces : List (Located String)) : Prop where
  stands : ∀ p ∈ pieces, Stands offset cs p
  filled : ∀ p ∈ pieces, p.span.lo < p.span.hi
  ordered : pieces.Pairwise fun p q => p.span.hi ≤ q.span.lo
  /-- A character at which no piece stands is a blank. -/
  blanks : ∀ before c after, cs = before ++ c :: after →
    (∀ p ∈ pieces, offset + byteLength before < p.span.lo ∨
      p.span.hi ≤ offset + byteLength before) → isBlank c = true

variable {offset : Nat} {cs : List Char} {p : Located String} {ps pieces : List (Located String)}

theorem Stands.le_lo (h : Stands offset cs p) : offset ≤ p.span.lo := by
  obtain ⟨before, after, -, hlo, -⟩ := h
  omega

theorem Stands.lo_lt_hi (h : Stands offset cs p) : p.span.lo < p.span.hi := by
  obtain ⟨before, after, -, hlo, hhi, hunit⟩ := h
  have := Text.byteLength_pos hunit.ne_nil
  rw [Text.byteLength_append] at hhi
  omega

/-- A piece behind a first part of the text is a piece of the rest. -/
theorem stands_append_iff (front : List Char) (h : offset + byteLength front ≤ p.span.lo) :
    Stands offset (front ++ cs) p ↔ Stands (offset + byteLength front) cs p := by
  constructor
  · rintro ⟨before, after, hcs, hlo, hhi, hunit⟩
    obtain ⟨m, rfl, hm⟩ := Text.exists_append_of_byteLength_le hcs (by omega)
    refine ⟨m, after, hm, ?_, ?_, hunit⟩
    · rw [hlo, Text.byteLength_append, Nat.add_assoc]
    · rw [hhi, List.append_assoc, Text.byteLength_append, Nat.add_assoc]
  · rintro ⟨before, after, rfl, hlo, hhi, hunit⟩
    refine ⟨front ++ before, after, (List.append_assoc ..).symm, ?_, ?_, hunit⟩
    · rw [hlo, Text.byteLength_append, Nat.add_assoc]
    · rw [hhi, List.append_assoc, Text.byteLength_append front, Nat.add_assoc]

theorem segmentation_nil : Segmentation offset [] pieces ↔ pieces = [] := by
  constructor
  · intro h
    apply List.eq_nil_iff_forall_not_mem.mpr
    intro p hp
    obtain ⟨before, after, hcs, -, -, hunit⟩ := h.stands p hp
    have hempty := (List.append_eq_nil_iff.mp hcs.symm).2
    exact hunit.ne_nil (List.append_eq_nil_iff.mp hempty).1
  · rintro rfl
    refine ⟨by simp, by simp, .nil, ?_⟩
    intro before c after h
    simp at h

/-- A piece does not start at a blank. -/
theorem Stands.le_lo_of_blank {c : Char} (hc : isBlank c = true) (h : Stands offset (c :: cs) p) :
    offset + byteLength [c] ≤ p.span.lo := by
  obtain ⟨before, after, hcs, hlo, -, hunit⟩ := h
  cases before with
  | nil =>
    obtain ⟨x, xs, htext, hx⟩ := hunit.exists_cons
    rw [htext, List.nil_append, List.cons_append, List.cons.injEq] at hcs
    rw [← hcs.1, hc] at hx
    cases hx
  | cons x before =>
    rw [List.cons_append, List.cons.injEq] at hcs
    rw [hlo, ← hcs.1]
    simp only [Text.byteLength_cons, Text.byteLength_nil]
    omega

theorem segmentation_blank {c : Char} (hc : isBlank c = true) :
    Segmentation offset (c :: cs) pieces ↔ Segmentation (offset + c.utf8Size) cs pieces := by
  have hsize : offset + c.utf8Size = offset + byteLength [c] := rfl
  rw [hsize]
  constructor
  · intro h
    refine ⟨?_, h.filled, h.ordered, ?_⟩
    · intro p hp
      have hstands := h.stands p hp
      exact (stands_append_iff [c] (hstands.le_lo_of_blank hc)).mp hstands
    · intro before x after hcs houtside
      refine h.blanks (c :: before) x after (by rw [hcs]; rfl) ?_
      simpa [Nat.add_assoc] using houtside
  · intro h
    refine ⟨?_, h.filled, h.ordered, ?_⟩
    · intro p hp
      have hstands := h.stands p hp
      exact (stands_append_iff [c] hstands.le_lo).mpr hstands
    · intro before x after hcs houtside
      cases before with
      | nil => rw [← (List.cons.inj hcs).1, hc]
      | cons y before =>
        obtain ⟨rfl, hrest⟩ := List.cons.inj hcs
        refine h.blanks before x after hrest ?_
        simpa [Nat.add_assoc] using houtside

/-- The first piece of a segmentation is where the text starts, if that is no blank. -/
theorem Segmentation.exists_first {c : Char} (h : Segmentation offset (c :: cs) pieces)
    (hc : isBlank c = false) : ∃ p ps, pieces = p :: ps ∧ p.span.lo = offset := by
  have hexists : ∃ p ∈ pieces, p.span.lo ≤ offset := by
    apply Classical.byContradiction
    intro hnone
    have hblank := h.blanks [] c cs rfl (by
      intro p hp
      refine .inl (Nat.lt_of_not_le ?_)
      intro hle
      exact hnone ⟨p, hp, hle⟩)
    rw [hc] at hblank
    cases hblank
  obtain ⟨q, hq, hle⟩ := hexists
  cases hpieces : pieces with
  | nil =>
    rw [hpieces] at hq
    cases hq
  | cons p ps =>
    rw [hpieces] at hq h
    have hp := (h.stands p (List.mem_cons_self ..)).le_lo
    rcases List.mem_cons.mp hq with rfl | hq
    · exact ⟨q, ps, rfl, by omega⟩
    · have horder := (List.pairwise_cons.mp h.ordered).1 q hq
      have hfilled := h.filled p (List.mem_cons_self ..)
      omega

theorem segmentation_unit {text after : List Char} (hunit : UnitBefore after text) :
    Segmentation offset (text ++ after) pieces ↔
      ∃ p ps, pieces = p :: ps ∧ p.value.toList = text ∧ p.span.lo = offset ∧
        p.span.hi = offset + byteLength text ∧
        Segmentation (offset + byteLength text) after ps := by
  obtain ⟨c, rest, rfl, hc⟩ := hunit.exists_cons
  constructor
  · intro h
    obtain ⟨p, ps, rfl, hp⟩ := Segmentation.exists_first h hc
    obtain ⟨before, after', hcs, hlo, hhi, hunit'⟩ := h.stands p (List.mem_cons_self ..)
    obtain rfl : before = [] := Text.byteLength_eq_zero.mp (by omega)
    -- Both units start at the same character, and the cut there has one result.
    obtain ⟨c', rest', htext, -⟩ := hunit'.exists_cons
    rw [htext, List.nil_append, List.cons_append, List.cons_append, List.cons.injEq] at hcs
    obtain ⟨rfl, hcs⟩ := hcs
    have hcut := cutUnit_append hunit
    rw [hcs, cutUnit_append (htext ▸ hunit'), Cut.mk.injEq] at hcut
    obtain ⟨rfl, rfl⟩ := hcut
    rw [List.nil_append, htext] at hhi
    refine ⟨p, ps, rfl, htext, hp, hhi, ?_⟩
    obtain ⟨hfirst, hordered⟩ := List.pairwise_cons.mp h.ordered
    refine ⟨?_, fun q hq => h.filled q (List.mem_cons_of_mem _ hq), hordered, ?_⟩
    · intro q hq
      exact (stands_append_iff _ (hhi ▸ hfirst q hq)).mp (h.stands q (List.mem_cons_of_mem _ hq))
    · intro before x behind hafter houtside
      apply h.blanks (c :: rest' ++ before) x behind (by rw [hafter, List.append_assoc])
      rw [Text.byteLength_append, ← Nat.add_assoc]
      intro q hq
      rcases List.mem_cons.mp hq with rfl | hq
      · omega
      · exact houtside q hq
  · rintro ⟨p, ps, rfl, htext, hlo, hhi, h⟩
    have hp : Stands offset (c :: rest ++ after) p := by
      refine ⟨[], after, by rw [htext]; rfl, by simpa using hlo, ?_, htext ▸ hunit⟩
      rw [hhi, htext]
      rfl
    refine ⟨?_, ?_, ?_, ?_⟩
    · intro q hq
      rcases List.mem_cons.mp hq with rfl | hq
      · exact hp
      · have hstands := h.stands q hq
        exact (stands_append_iff _ hstands.le_lo).mpr hstands
    · intro q hq
      rcases List.mem_cons.mp hq with rfl | hq
      · exact hp.lo_lt_hi
      · exact h.filled q hq
    · refine List.pairwise_cons.mpr ⟨?_, h.ordered⟩
      intro q hq
      rw [hhi]
      exact (h.stands q hq).le_lo
    · intro before x behind hcs houtside
      have hbehind : byteLength (c :: rest) ≤ byteLength before := by
        have := houtside p (List.mem_cons_self ..)
        omega
      obtain ⟨m, rfl, hm⟩ := Text.exists_append_of_byteLength_le hcs hbehind
      apply h.blanks m x behind hm
      intro q hq
      have := houtside q (List.mem_cons_of_mem _ hq)
      rwa [Text.byteLength_append, ← Nat.add_assoc] at this

/-- The unit that a piece is. -/
def pieceLexeme (p : Located String) : Lexeme :=
  ⟨p.span.lo, p.value.toList⟩

/-- The pieces of a segmentation are the units of the text, at their places. -/
theorem segmentation_iff :
    Segmentation offset cs pieces ↔
      pieces.map pieceLexeme = lexemes offset cs ∧
        ∀ p ∈ pieces, p.span.hi = p.span.lo + byteLength p.value.toList := by
  fun_induction lexemes offset cs generalizing pieces with
  | case1 offset =>
    rw [segmentation_nil, List.map_eq_nil_iff]
    constructor
    · rintro rfl
      exact ⟨rfl, by simp⟩
    · exact And.left
  | case2 offset c cs hc ih => rw [segmentation_blank hc, ih]
  | case3 offset c cs hc ih =>
    have hunit := unitBefore_cutUnit cs (by simpa using hc)
    have happend : c :: cs = c :: (cutUnit c cs).taken ++ (cutUnit c cs).rest := by
      rw [List.cons_append, append_cutUnit]
    rw [happend, segmentation_unit hunit]
    constructor
    · rintro ⟨p, ps, rfl, htext, hlo, hhi, hrest⟩
      obtain ⟨hmap, hhis⟩ := ih.mp hrest
      refine ⟨?_, ?_⟩
      · rw [List.map_cons, hmap, pieceLexeme, htext, hlo]
      · intro q hq
        rcases List.mem_cons.mp hq with rfl | hq
        · rw [hhi, htext, hlo]
        · exact hhis q hq
    · rintro ⟨hmap, hhis⟩
      obtain ⟨p, ps, rfl, hp, hps⟩ := List.map_eq_cons_iff.mp hmap
      obtain ⟨hlo, htext⟩ := Lexeme.mk.inj hp
      have hhi := hhis p (List.mem_cons_self ..)
      rw [hlo, htext] at hhi
      refine ⟨p, ps, rfl, htext, hlo, hhi, ih.mpr ⟨hps, ?_⟩⟩
      intro q hq
      exact hhis q (List.mem_cons_of_mem _ hq)

theorem eq_of_pieceLexeme {p q : Located String} (h : pieceLexeme p = pieceLexeme q)
    (hp : p.span.hi = p.span.lo + byteLength p.value.toList)
    (hq : q.span.hi = q.span.lo + byteLength q.value.toList) : p = q := by
  obtain ⟨hlo, htext⟩ := Lexeme.mk.inj h
  rw [htext, hlo] at hp
  have hspan : Span.ofBounds q.span.lo q.span.hi = .ok p.span :=
    Span.ofBounds_eq_ok_iff.mpr ⟨hlo, hp.trans hq.symm⟩
  rw [Span.ofBounds_lo_hi, Except.ok.injEq] at hspan
  have hvalue : p.value = q.value := String.toList_injective htext
  cases p
  cases q
  exact Located.mk.injEq .. ▸ ⟨hspan.symm, hvalue⟩

/-- A text has one segmentation at most. -/
theorem Segmentation.unique {qs : List (Located String)} (hps : Segmentation offset cs ps)
    (hqs : Segmentation offset cs qs) : ps = qs := by
  obtain ⟨hmap, hhi⟩ := segmentation_iff.mp hps
  obtain ⟨hmap', hhi'⟩ := segmentation_iff.mp hqs
  have hlexemes := hmap.trans hmap'.symm
  clear hps hqs hmap hmap'
  induction ps generalizing qs with
  | nil => exact (List.map_eq_nil_iff.mp hlexemes.symm).symm
  | cons p ps ih =>
    obtain ⟨q, qs, rfl, hq, htail⟩ := List.map_eq_cons_iff.mp hlexemes.symm
    rw [eq_of_pieceLexeme hq.symm (hhi p (List.mem_cons_self ..)) (hhi' q (List.mem_cons_self ..)),
      ih (fun x hx => hhi x (List.mem_cons_of_mem _ hx))
        (fun x hx => hhi' x (List.mem_cons_of_mem _ hx)) htail.symm]

/-! ## Tokens -/

/-- The text of a token at its place. -/
def piece (t : Token) : Located String :=
  ⟨t.span, t.text⟩

theorem pieceLexeme_of_toToken {l : Lexeme} {t : Token} (h : l.toToken = .ok t) :
    pieceLexeme t.piece = l ∧ t.span.hi = t.span.lo + byteLength t.text.toList := by
  unfold Lexeme.toToken at h
  cases hspan : Span.ofBounds l.offset (l.offset + byteLength l.text) with
  | error e =>
    rw [hspan] at h
    cases h
  | ok span =>
    rw [hspan] at h
    cases h
    obtain ⟨hlo, hhi⟩ := Span.ofBounds_eq_ok_iff.mp hspan
    constructor
    · simp only [pieceLexeme, piece, hlo, String.toList_ofList]
    · simp only [hhi, hlo, String.toList_ofList]

theorem map_piece_of_mapM {ls : List Lexeme} {ts : List Token}
    (h : ls.mapM Lexeme.toToken = .ok ts) :
    (ts.map piece).map pieceLexeme = ls ∧
      ∀ t ∈ ts, t.span.hi = t.span.lo + byteLength t.text.toList := by
  induction ls generalizing ts with
  | nil =>
    cases h
    simp
  | cons l ls ih =>
    rw [List.mapM_cons] at h
    cases ht : l.toToken with
    | error e =>
      rw [ht] at h
      cases h
    | ok t =>
      cases hts : ls.mapM Lexeme.toToken with
      | error e =>
        rw [ht, hts] at h
        cases h
      | ok us =>
        rw [ht, hts] at h
        cases h
        obtain ⟨hmap, hhis⟩ := ih hts
        obtain ⟨hlexeme, hhi⟩ := pieceLexeme_of_toToken ht
        refine ⟨by rw [List.map_cons, List.map_cons, hlexeme, hmap], ?_⟩
        intro u hu
        rcases List.mem_cons.mp hu with rfl | hu
        · exact hhi
        · exact hhis u hu

/-- The tokens of a source are a segmentation of it. -/
theorem segmentation_of_ofSource {source : String} {ts : List Token} {length : Nat}
    (h : Buffer.ofSource source = .ok (.ofTokens ts length)) :
    Segmentation 0 source.toList (ts.map piece) := by
  cases hus : (lexemes 0 source.toList).mapM Lexeme.toToken with
  | error e =>
    rw [ofSource_eq, tokenize, hus] at h
    cases h
  | ok us =>
    rw [(ofSource_of_mapM hus).2] at h
    have happend : us ++ [endOfInput source.utf8ByteSize] = ts ++ [endOfInput length] :=
      List.toArray_inj (congrArg Buffer.tokens (Except.ok.inj h))
    obtain rfl := (List.append_inj' happend rfl).1
    obtain ⟨hmap, hhis⟩ := map_piece_of_mapM hus
    refine segmentation_iff.mpr ⟨hmap, ?_⟩
    intro p hp
    obtain ⟨t, ht, rfl⟩ := List.mem_map.mp hp
    exact hhis t ht

/-- The tokens of a source are units that follow each other with blanks between them, and the mark
of the end behind them. No other division of the source into units is possible. -/
theorem tokens_segmentation (source : String) (hsize : source.utf8ByteSize < Span.limit) :
    ∃ buffer ts, Buffer.ofSource source = .ok buffer ∧ buffer.cursor = 0 ∧
      buffer.tokens.toList = ts ++ [⟨.endOfInput, "", .empty source.utf8ByteSize⟩] ∧
      (∀ t ∈ ts, t.kind ≠ .endOfInput) ∧
      Segmentation 0 source.toList (ts.map piece) ∧
      ∀ pieces, Segmentation 0 source.toList pieces → pieces = ts.map piece := by
  obtain ⟨ts, htokens, hbuffer, -⟩ := exists_buffer hsize
  have hsegmentation := segmentation_of_ofSource hbuffer
  refine ⟨_, ts, hbuffer, rfl, rfl, htokens.kind_ne_endOfInput, hsegmentation, ?_⟩
  intro pieces hpieces
  exact hpieces.unique hsegmentation

/-- A string next to a word, and a quote that its line does not close before a wide blank. -/
theorem tokens_segmentation_quotes :
    "\"да\"нет;\n\"x\u3000y".utf8ByteSize < Span.limit ∧
      ∃ pieces, Segmentation 0 "\"да\"нет;\n\"x\u3000y".toList pieces ∧
        (∀ qs, Segmentation 0 "\"да\"нет;\n\"x\u3000y".toList qs → qs = pieces) ∧
        pieces.map (fun p => (p.span.lo, p.span.hi, p.value)) =
          [(0, 6, "\"да\""), (6, 12, "нет"), (12, 13, ";"), (14, 16, "\"x"), (19, 20, "y")] := by
  have hsize : "\"да\"нет;\n\"x\u3000y".utf8ByteSize < Span.limit := by decide
  obtain ⟨buffer, ts, hbuffer, -, htokens, -, hsegmentation, hunique⟩ := tokens_segmentation _ hsize
  have hpieces : (Buffer.ofSource "\"да\"нет;\n\"x\u3000y").toOption.map
      (·.tokens.toList.map fun t => (t.span.lo, t.span.hi, t.text)) =
        some ([(0, 6, "\"да\""), (6, 12, "нет"), (12, 13, ";"), (14, 16, "\"x"), (19, 20, "y")] ++
          [(20, 20, "")]) := by
    decide +kernel
  rw [hbuffer, Except.toOption, Option.map_some, htokens, List.map_append,
    Option.some.injEq] at hpieces
  refine ⟨hsize, ts.map piece, hsegmentation, hunique, ?_⟩
  rw [List.map_map]
  exact (List.append_inj' hpieces rfl).1

end Token

end Bukvar
