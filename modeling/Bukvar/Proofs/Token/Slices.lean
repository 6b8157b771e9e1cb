import Bukvar.Proofs.Token.Segmentation

/-!
# Slices of a source

A text that is cut out of a source from the start of one token to the end of a later one has the
tokens of the source between them, at places that are counted from the cut. The form of a unit
depends on the text behind it, up to the end of its line, but a unit keeps its form when that text
is cut off (`UnitBefore.of_append`).

* `Segmentation.slice`: the pieces in the middle of a text.
* `exists_slice`: the tokens of a slice.
* `slice?_token`: the slice at a token is its text.
-/

namespace Bukvar

open Text (byteLength takeBytes?)

/-! ## Moved places -/

/-- The span further behind. -/
def Span.moved (k : Nat) (s : Span) : Span :=
  ⟨k + s.lo, s.length, s.length_lt⟩

@[simp] theorem Span.lo_moved (k : Nat) (s : Span) : (s.moved k).lo = k + s.lo := rfl

@[simp] theorem Span.hi_moved (k : Nat) (s : Span) : (s.moved k).hi = k + s.hi :=
  Nat.add_assoc ..

theorem Span.cover_moved {a b c : Span} (k : Nat) (h : a.cover b = .ok c) :
    (a.moved k).cover (b.moved k) = .ok (c.moved k) := by
  obtain ⟨hlo, hhi⟩ := cover_eq_ok_iff.mp h
  rw [cover_eq_ok_iff]
  simp only [lo_moved, hi_moved]
  omega

/-- The token further behind. -/
def Token.moved (k : Nat) (t : Token) : Token :=
  { t with span := t.span.moved k }

/-- The value further behind. -/
def Located.moved {α : Type} (k : Nat) (p : Located α) : Located α :=
  { p with span := p.span.moved k }

/-! ## Slices -/

/-- The text at a span, unless the span goes beyond the source or starts or ends inside a
character. -/
def Span.slice? (span : Span) (source : String) : Option String :=
  if span.hi ≤ source.utf8ByteSize then do
    let before ← takeBytes? source.toList span.lo
    let upTo ← takeBytes? source.toList span.hi
    return String.ofList (upTo.drop before.length)
  else none

theorem Span.slice?_eq {span : Span} {source : String} {before text after : List Char}
    (h : source.toList = before ++ (text ++ after)) (hlo : span.lo = byteLength before)
    (hhi : span.hi = byteLength (before ++ text)) :
    span.slice? source = some (String.ofList text) := by
  have hsize : span.hi ≤ source.utf8ByteSize := by
    rw [hhi, ← Text.byteLength_toList, h, ← List.append_assoc, Text.byteLength_append _ after]
    exact Nat.le_add_right _ _
  have hbefore : takeBytes? source.toList span.lo = some before := by
    rw [h, hlo, Text.takeBytes?_append]
  have hupTo : takeBytes? source.toList span.hi = some (before ++ text) := by
    rw [h, hhi, ← List.append_assoc, Text.takeBytes?_append]
  rw [slice?, if_pos hsize, hbefore, hupTo]
  simp

namespace Token

open Text (isBlank)

/-- A unit keeps its form when the text behind it is cut off. -/
theorem UnitBefore.of_append {after more text : List Char} (h : UnitBefore (after ++ more) text) :
    UnitBefore after text := by
  cases h with
  | standalone h => exact .standalone h
  | quoted h => exact .quoted h
  | @word c cs characters inner opening ending =>
    refine .word characters inner ?_ ?_
    · intro hc hmem
      apply opening hc
      rw [← List.append_assoc, List.takeWhile_append]
      split
      · exact List.mem_append_left _ ((List.takeWhile_sublist _).subset hmem)
      · exact hmem
    · intro x hx
      apply ending
      cases after with
      | nil => cases hx
      | cons y after => exact hx

variable {offset : Nat} {cs : List Char} {pieces : List (Located String)}

theorem Segmentation.moved (k : Nat) (h : Segmentation offset cs pieces) :
    Segmentation (k + offset) cs (pieces.map (Located.moved k)) := by
  refine ⟨?_, ?_, ?_, ?_⟩
  · intro p hp
    obtain ⟨q, hq, rfl⟩ := List.mem_map.mp hp
    obtain ⟨before, after, hcs, hlo, hhi, hunit⟩ := h.stands q hq
    refine ⟨before, after, hcs, ?_, ?_, hunit⟩
    · change k + q.span.lo = _
      omega
    · change (q.span.moved k).hi = _
      rw [Span.hi_moved, hhi, Nat.add_assoc]
      rfl
  · intro p hp
    obtain ⟨q, hq, rfl⟩ := List.mem_map.mp hp
    have := h.filled q hq
    change (q.span.moved k).lo < (q.span.moved k).hi
    simp only [Span.lo_moved, Span.hi_moved]
    omega
  · refine List.pairwise_map.mpr (h.ordered.imp ?_)
    intro p q hpq
    change (p.span.moved k).hi ≤ (q.span.moved k).lo
    simp only [Span.lo_moved, Span.hi_moved]
    omega
  · intro before c after hcs houtside
    refine h.blanks before c after hcs ?_
    intro p hp
    have := houtside _ (List.mem_map_of_mem hp)
    change _ < (p.span.moved k).lo ∨ (p.span.moved k).hi ≤ _ at this
    simp only [Span.lo_moved, Span.hi_moved] at this
    omega

/-- The pieces of a text that lie in its middle divide the middle. -/
theorem Segmentation.slice {front middle back : List Char} {ps us qs : List (Located String)}
    (h : Segmentation offset (front ++ (middle ++ back)) (ps ++ us ++ qs))
    (hps : ∀ p ∈ ps, p.span.hi ≤ offset + byteLength front)
    (hus : ∀ p ∈ us, offset + byteLength front ≤ p.span.lo ∧
      p.span.hi ≤ offset + byteLength (front ++ middle))
    (hqs : ∀ p ∈ qs, offset + byteLength (front ++ middle) ≤ p.span.lo) :
    Segmentation (offset + byteLength front) middle us := by
  have hmem : ∀ p ∈ us, p ∈ ps ++ us ++ qs := by
    intro p hp
    exact List.mem_append_left _ (List.mem_append_right _ hp)
  refine ⟨?_, fun p hp => h.filled p (hmem p hp), ?_, ?_⟩
  · intro p hp
    obtain ⟨hlo, hhi⟩ := hus p hp
    obtain ⟨before, after, hcs, hplo, hphi, hunit⟩ :=
      (stands_append_iff front hlo).mp (h.stands p (hmem p hp))
    rw [Text.byteLength_append] at hhi
    rw [← List.append_assoc] at hcs
    obtain ⟨m, rfl, rfl⟩ := Text.exists_append_of_byteLength_le hcs.symm (by omega)
    exact ⟨before, m, by rw [List.append_assoc], hplo, hphi, hunit.of_append⟩
  · exact (List.pairwise_append.mp (List.pairwise_append.mp h.ordered).1).2.1
  · intro before c after hmiddle houtside
    refine h.blanks (front ++ before) c (after ++ back) (by simp [hmiddle]) ?_
    have hc := c.utf8Size_pos
    simp only [hmiddle, Text.byteLength_append, Text.byteLength_cons] at hps hqs ⊢
    intro p hp
    rcases List.mem_append.mp hp with hp | hp
    · rcases List.mem_append.mp hp with hp | hp
      · have := hps p hp
        omega
      · have := houtside p hp
        omega
    · have := hqs p hp
      omega

/-! ## Tokens of slices -/

/-- Tokens whose kinds are those of their texts are known from their texts and places. -/
theorem eq_of_map_piece {ts us : List Token} (hts : ∀ t ∈ ts, t.kind = classify t.text)
    (hus : ∀ t ∈ us, t.kind = classify t.text) (h : ts.map piece = us.map piece) : ts = us := by
  induction ts generalizing us with
  | nil => exact (List.map_eq_nil_iff.mp h.symm).symm
  | cons t ts ih =>
    obtain ⟨u, us, rfl, hu, htail⟩ := List.map_eq_cons_iff.mp h.symm
    obtain ⟨hspan, htext⟩ := Located.mk.inj hu
    have hkind : t.kind = u.kind := by
      rw [hts t (List.mem_cons_self ..), hus u (List.mem_cons_self ..), htext]
    have htu : t = u := by
      cases t
      cases u
      exact Token.mk.injEq .. ▸ ⟨hkind, htext.symm, hspan.symm⟩
    rw [htu, ih (fun t ht => hts t (List.mem_cons_of_mem _ ht))
      (fun t ht => hus t (List.mem_cons_of_mem _ ht)) htail.symm]

theorem map_piece_moved (k : Nat) (ts : List Token) :
    (ts.map (Token.moved k)).map piece = (ts.map piece).map (Located.moved k) := by
  rw [List.map_map, List.map_map]
  rfl

/-- Where the parts of a source lie that are cut at the first and at the last of some tokens. -/
structure Bounded (lo hi : Nat) (before us after : List Token) : Prop where
  before_le : ∀ t ∈ before, t.span.hi ≤ lo
  inside : ∀ t ∈ us, lo ≤ t.span.lo ∧ t.span.hi ≤ hi
  le_after : ∀ t ∈ after, hi ≤ t.span.lo

variable {before us after : List Token} {first last : Token}

theorem bounded_of_pairwise
    (h : (before ++ us ++ after).Pairwise fun t u => t.span.hi ≤ u.span.lo)
    (hfirst : us.head? = some first) (hlast : us.getLast? = some last) :
    Bounded first.span.lo last.span.hi before us after := by
  obtain ⟨hbefore, -, hcross⟩ := List.pairwise_append.mp h
  obtain ⟨-, hus, hinto⟩ := List.pairwise_append.mp hbefore
  have hfirstMem : first ∈ us := List.mem_of_mem_head? hfirst
  have hlastMem : last ∈ us := List.mem_of_mem_getLast? hlast
  refine ⟨fun t ht => hinto t ht first hfirstMem, ?_, ?_⟩
  · intro t ht
    constructor
    · obtain ⟨rest, rfl⟩ := List.head?_eq_some_iff.mp hfirst
      rcases List.mem_cons.mp ht with rfl | ht
      · exact Nat.le_refl _
      · exact Nat.le_trans first.span.lo_le_hi ((List.pairwise_cons.mp hus).1 t ht)
    · obtain ⟨init, rfl⟩ := List.getLast?_eq_some_iff.mp hlast
      rcases List.mem_append.mp ht with ht | ht
      · have := (List.pairwise_append.mp hus).2.2 t ht last (List.mem_singleton_self _)
        exact Nat.le_trans this last.span.lo_le_hi
      · obtain rfl := List.mem_singleton.mp ht
        exact Nat.le_refl _
  · intro t ht
    exact hcross last (List.mem_append_right _ hlastMem) t ht

/-- The slice of a source from one of its tokens to a later one has the tokens between them, moved
back by the offset of the slice. -/
theorem exists_slice {source : String} (hsize : source.utf8ByteSize < Span.limit)
    (htokens : TokensOf source (before ++ us ++ after))
    (hbuffer : Buffer.ofSource source = .ok (.ofTokens (before ++ us ++ after) source.utf8ByteSize))
    (hfirst : us.head? = some first) (hlast : us.getLast? = some last) {span : Span}
    (hlo : span.lo = first.span.lo) (hhi : span.hi = last.span.hi) :
    ∃ text ts, span.slice? source = some text ∧ span.hi = span.lo + text.utf8ByteSize ∧
      text.utf8ByteSize < Span.limit ∧ TokensOf text ts ∧
      Buffer.ofSource text = .ok (.ofTokens ts text.utf8ByteSize) ∧
      (∀ t ∈ ts, t.span.hi < Span.limit) ∧ us = ts.map (Token.moved span.lo) := by
  have hsegmentation := segmentation_of_ofSource hbuffer
  have hbounded := bounded_of_pairwise (List.pairwise_map.mp hsegmentation.ordered) hfirst hlast
  have hfirstMem : first ∈ us := List.mem_of_mem_head? hfirst
  have hlastMem : last ∈ us := List.mem_of_mem_getLast? hlast
  have hmem : ∀ t ∈ us, t.piece ∈ (before ++ us ++ after).map piece := by
    intro t ht
    exact List.mem_map_of_mem (List.mem_append_left _ (List.mem_append_right _ ht))
  -- The source is cut before the first token and behind the last one.
  obtain ⟨front, rest, hfront, hfrontLo, -⟩ := hsegmentation.stands _ (hmem first hfirstMem)
  obtain ⟨upTo, back, hback, -, hbackHi, -⟩ := hsegmentation.stands _ (hmem last hlastMem)
  change first.span.lo = 0 + byteLength front at hfrontLo
  change last.span.hi = 0 + byteLength (upTo ++ last.text.toList) at hbackHi
  have hle := (hbounded.inside first hfirstMem).2
  have hcut : front ++ (first.text.toList ++ rest) = (upTo ++ last.text.toList) ++ back := by
    rw [List.append_assoc]
    exact hfront.symm.trans hback
  obtain ⟨middle, hmiddle, -⟩ := Text.exists_append_of_byteLength_le hcut (by
    have := first.span.lo_le_hi
    omega)
  have hsource : source.toList = front ++ (middle ++ back) := by
    rw [hback, ← List.append_assoc, ← List.append_assoc]
    change (upTo ++ last.text.toList) ++ back = _
    rw [hmiddle]
  rw [hmiddle, Nat.zero_add, ← hhi] at hbackHi
  rw [Nat.zero_add, ← hlo] at hfrontLo
  have hbytes : (String.ofList middle).utf8ByteSize = byteLength middle :=
    Text.byteLength_ofList middle
  have hlength : (String.ofList middle).utf8ByteSize < Span.limit := by
    rw [← Text.byteLength_toList, hsource, Text.byteLength_append, Text.byteLength_append] at hsize
    omega
  obtain ⟨ts, hts, htext, hspans⟩ := exists_buffer hlength
  refine ⟨String.ofList middle, ts, Span.slice?_eq hsource hfrontLo hbackHi, ?_, hlength, hts, htext,
    hspans, ?_⟩
  · rw [hbackHi, hfrontLo, hbytes, Text.byteLength_append]
  · -- Both are segmentations of the slice.
    have hmoved := (segmentation_of_ofSource htext).moved span.lo
    have hpart : Segmentation (0 + byteLength front) middle (us.map piece) := by
      rw [hsource, List.map_append, List.map_append] at hsegmentation
      rw [← hlo, ← hhi] at hbounded
      refine hsegmentation.slice ?_ ?_ ?_
      · intro p hp
        obtain ⟨t, ht, rfl⟩ := List.mem_map.mp hp
        have := hbounded.before_le t ht
        change t.span.hi ≤ _
        omega
      · intro p hp
        obtain ⟨t, ht, rfl⟩ := List.mem_map.mp hp
        have := hbounded.inside t ht
        change _ ≤ t.span.lo ∧ t.span.hi ≤ _
        omega
      · intro p hp
        obtain ⟨t, ht, rfl⟩ := List.mem_map.mp hp
        have := hbounded.le_after t ht
        change _ ≤ t.span.lo
        omega
    rw [← map_piece_moved, String.toList_ofList, Nat.add_zero] at hmoved
    rw [Nat.zero_add, ← hfrontLo] at hpart
    refine eq_of_map_piece ?_ ?_ (hpart.unique hmoved)
    · intro t ht
      exact htokens.kinds t (List.mem_append_left _ (List.mem_append_right _ ht))
    · intro t ht
      obtain ⟨u, hu, rfl⟩ := List.mem_map.mp ht
      exact hts.kinds u hu

/-- The slice of a source at one of its tokens is the text of the token. -/
theorem slice?_token {source : String} {ts : List Token} {length : Nat}
    (hbuffer : Buffer.ofSource source = .ok (.ofTokens ts length)) {t : Token} (ht : t ∈ ts) :
    t.span.slice? source = some t.text := by
  obtain ⟨before, after, hsource, hlo, hhi, -⟩ :=
    (segmentation_of_ofSource hbuffer).stands t.piece (List.mem_map_of_mem ht)
  rw [Nat.zero_add] at hlo hhi
  have hslice := Span.slice?_eq hsource hlo hhi
  rw [String.ofList_toList] at hslice
  exact hslice

end Token

end Bukvar
