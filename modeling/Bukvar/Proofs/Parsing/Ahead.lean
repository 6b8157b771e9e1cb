import Bukvar.Parsing.Parser
import Bukvar.Proofs.Grammar.Expression

/-!
# What lies ahead of a parser

A stream is seen as the list of tokens that it has not passed yet. `Passes s w s'` says that
the symbols `w` lie ahead of `s` and that `s'` is the same stream behind them. A source ends
with the only mark of its end, and `Passes` never goes beyond that mark.

* `run_advance`, `run_expect`, `run_take`: what the parsers of single tokens do, by the token
  ahead.
* `passes_of_advance`, `passes_of_expect`: what has been passed when they succeed.
* `Stream.Within`, `run_cover`: tokens that lie near enough to each other for a span to hold them.
-/

namespace Bukvar

open Token (Kind Stream)
open Grammar (Symbol symbol)

/-- A literal token has the form of its literal. -/
structure Token.Regular (t : Token) : Prop where
  integer : t.kind = .integerLiteral → isInteger t.text.toList = true
  string : t.kind = .stringLiteral → isString t.text.toList = true

/-- Tokens up to the mark at the end of a source. -/
structure Token.Complete (ts : List Token) : Prop where
  regular : ∀ t ∈ ts, t.Regular
  ended : ∃ us u, ts = us ++ [u] ∧ u.kind = .endOfInput ∧ ∀ t ∈ us, t.kind ≠ .endOfInput

namespace Token.Complete

theorem ne_nil {ts : List Token} (h : Complete ts) : ts ≠ [] := by
  obtain ⟨us, u, rfl, -⟩ := h.ended
  simp

/-- What follows passed tokens is complete as long as something follows. -/
theorem of_append {us ts : List Token} (h : Complete (us ++ ts)) (hts : ts ≠ []) :
    Complete ts := by
  refine ⟨fun t ht => h.regular t (List.mem_append_right us ht), ?_⟩
  obtain ⟨vs, v, hv, hkind, hvs⟩ := h.ended
  rcases List.append_eq_append_iff.mp hv with ⟨m, rfl, hm⟩ | ⟨m, _, hm⟩
  · exact ⟨m, v, hm, hkind, fun t ht => hvs t (List.mem_append_right us ht)⟩
  · have hlen := congrArg List.length hm
    simp only [List.length_append, List.length_cons, List.length_nil] at hlen
    have hpos := List.length_pos_iff.mpr hts
    have hm0 : m = [] := List.length_eq_zero_iff.mp (by omega)
    subst hm0
    exact ⟨[], v, hm.symm, hkind, by simp⟩

theorem kind_ne_of_append {us ts : List Token} (h : Complete (us ++ ts)) (hts : ts ≠ []) :
    ∀ t ∈ us, t.kind ≠ .endOfInput := by
  intro t ht
  obtain ⟨vs, v, hv, _, hvs⟩ := h.ended
  rcases List.append_eq_append_iff.mp hv with ⟨m, rfl, _⟩ | ⟨m, rfl, hm⟩
  · exact hvs t (List.mem_append_left m ht)
  · have hlen := congrArg List.length hm
    simp only [List.length_append, List.length_cons, List.length_nil] at hlen
    have hpos := List.length_pos_iff.mpr hts
    have hm0 : m = [] := List.length_eq_zero_iff.mp (by omega)
    subst hm0
    exact hvs t (by simpa using ht)

theorem tail {t : Token} {ts : List Token} (h : Complete (t :: ts)) (ht : t.kind ≠ .endOfInput) :
    Complete ts := by
  apply @of_append [t] ts h
  rintro rfl
  obtain ⟨us, u, hu, hkind, -⟩ := h.ended
  have : [] ++ [t] = us ++ [u] := hu
  obtain ⟨rfl, -⟩ := List.cons.inj (List.append_inj' this rfl).2
  exact ht hkind

end Token.Complete

/-! ## Streams -/

namespace Token.Stream

/-- The tokens that have not been passed. -/
def ahead (s : Stream) : List Token :=
  s.tokens.toList.drop s.cursor

/-- The stream some tokens further. -/
def skip (s : Stream) (n : Nat) : Stream :=
  { s with cursor := s.cursor + n }

theorem step_eq_skip (s : Stream) : s.step = s.skip 1 := rfl

theorem skip_skip (s : Stream) (m n : Nat) : (s.skip m).skip n = s.skip (m + n) := by
  simp [skip, Nat.add_assoc]

theorem ahead_skip (s : Stream) (n : Nat) : (s.skip n).ahead = s.ahead.drop n := by
  simp [ahead, skip, List.drop_drop]

theorem ahead_step {s : Stream} {t : Token} {rest : List Token} (h : s.ahead = t :: rest) :
    s.step.ahead = rest := by
  rw [step_eq_skip, ahead_skip, h]
  rfl

theorem getElem?_ahead (s : Stream) (n : Nat) : s.tokens[s.cursor + n]? = s.ahead[n]? := by
  rw [ahead, List.getElem?_drop, Array.getElem?_toList]

/-- All tokens lie in the first four gigabytes of the source, so that a span can hold any two
of them. -/
def Near (s : Stream) : Prop :=
  ∀ t ∈ s.tokens, t.span.hi < Span.limit

theorem cursor_lt {s : Stream} {t : Token} {rest : List Token} (h : s.ahead = t :: rest) :
    s.cursor < s.tokens.size := by
  have := congrArg List.length h
  simp only [ahead, List.length_drop, Array.length_toList, List.length_cons] at this
  omega

theorem length_ahead (s : Stream) : s.ahead.length = s.remaining := by
  simp [ahead, remaining]

theorem current_of_ahead {s : Stream} {t : Token} {rest : List Token} (h : s.ahead = t :: rest) :
    s.current = t := by
  rw [current, look, getElem?_ahead, h]
  rfl

theorem next_of_ahead {s : Stream} {t u : Token} {rest : List Token}
    (h : s.ahead = t :: u :: rest) : s.next = u := by
  rw [next, look, getElem?_ahead, h]
  rfl

end Token.Stream

/-- The symbols `w` lie ahead of `s`, and `s'` is the stream behind them. -/
structure Passes (s : Stream) (w : List Symbol) (s' : Stream) : Prop where
  complete : Token.Complete s.ahead
  eq_skip : s' = s.skip w.length
  ahead_eq : s.ahead.map symbol = w ++ s'.ahead.map symbol
  remains : s'.ahead ≠ []

namespace Passes

theorem refl {s : Stream} (h : Token.Complete s.ahead) : Passes s [] s :=
  ⟨h, rfl, rfl, h.ne_nil⟩

/-- The tokens behind the symbols of a part of what lies ahead. -/
theorem exists_tokens {s s' : Stream} {w : List Symbol} (h : Passes s w s') :
    ∃ ts, s.ahead = ts ++ s'.ahead ∧ ts.map symbol = w := by
  refine ⟨s.ahead.take w.length, ?_, ?_⟩
  · rw [h.eq_skip, Stream.ahead_skip, List.take_append_drop]
  · rw [List.map_take, h.ahead_eq, List.take_left]

theorem complete_right {s s' : Stream} {w : List Symbol} (h : Passes s w s') :
    Token.Complete s'.ahead := by
  obtain ⟨ts, hts, -⟩ := h.exists_tokens
  exact Token.Complete.of_append (hts ▸ h.complete) h.remains

theorem trans {s m s' : Stream} {u v : List Symbol} (hu : Passes s u m) (hv : Passes m v s') :
    Passes s (u ++ v) s' := by
  refine ⟨hu.complete, ?_, ?_, hv.remains⟩
  · rw [hv.eq_skip, hu.eq_skip, Stream.skip_skip, List.length_append]
  · rw [hu.ahead_eq, hv.ahead_eq, List.append_assoc]

/-- What lies ahead can be passed in two parts. -/
theorem split {s s' : Stream} {u v : List Symbol} (h : Passes s (u ++ v) s') :
    ∃ m, Passes s u m ∧ Passes m v s' := by
  have hm : (s.skip u.length).ahead.map symbol = v ++ s'.ahead.map symbol := by
    rw [Stream.ahead_skip, List.map_drop, h.ahead_eq, List.append_assoc, List.drop_left]
  have hne : (s.skip u.length).ahead ≠ [] := by
    intro h0
    rw [h0, List.map_nil] at hm
    have := (List.append_eq_nil_iff.mp hm.symm).2
    exact h.remains (List.map_eq_nil_iff.mp this)
  have hu : Passes s u (s.skip u.length) := by
    refine ⟨h.complete, rfl, ?_, hne⟩
    rw [hm, h.ahead_eq, List.append_assoc]
  refine ⟨s.skip u.length, hu, hu.complete_right, ?_, hm, h.remains⟩
  rw [h.eq_skip, Stream.skip_skip, List.length_append]

/-- The token of the first symbol that lies ahead. -/
theorem uncons {s s' : Stream} {x : Symbol} {w : List Symbol} (h : Passes s (x :: w) s') :
    ∃ t rest, s.ahead = t :: rest ∧ symbol t = x ∧ t.Regular ∧ t.kind ≠ .endOfInput ∧
      Passes s.step w s' := by
  obtain ⟨ts, hts, hmap⟩ := h.exists_tokens
  obtain ⟨t, us, rfl, hx, hus⟩ := List.map_eq_cons_iff.mp hmap
  have hcomplete := hts ▸ h.complete
  have ht := hcomplete.kind_ne_of_append h.remains t (List.mem_cons_self ..)
  have hahead : s.step.ahead = us ++ s'.ahead := Stream.ahead_step hts
  refine ⟨t, us ++ s'.ahead, hts, hx, hcomplete.regular t (by simp), ht, ?_⟩
  refine ⟨?_, ?_, ?_, h.remains⟩
  · rw [hahead]
    exact Token.Complete.tail hcomplete ht
  · rw [h.eq_skip, Stream.step_eq_skip, Stream.skip_skip, List.length_cons, Nat.add_comm]
  · rw [hahead, List.map_append, hus]

/-- Passing the first tokens ahead. -/
theorem front {s : Stream} {ts rest : List Token} (hc : Token.Complete s.ahead)
    (hs : s.ahead = ts ++ rest) (hrest : rest ≠ []) :
    Passes s (ts.map symbol) (s.skip ts.length) ∧ (s.skip ts.length).ahead = rest := by
  have hahead : (s.skip ts.length).ahead = rest := by
    rw [Stream.ahead_skip, hs, List.drop_left]
  refine ⟨⟨hc, by rw [List.length_map], ?_, hahead ▸ hrest⟩, hahead⟩
  rw [hahead, hs, List.map_append]

/-- Passing the token ahead. -/
theorem one {s : Stream} {t : Token} {rest : List Token} (hc : Token.Complete s.ahead)
    (h : s.ahead = t :: rest) (ht : t.kind ≠ .endOfInput) : Passes s [symbol t] s.step := by
  have hrest := Stream.ahead_step h
  refine ⟨hc, rfl, ?_, ?_⟩
  · rw [h, hrest]
    rfl
  · rw [hrest]
    exact (Token.Complete.tail (h ▸ hc) ht).ne_nil

theorem length_le {s s' : Stream} {w : List Symbol} (h : Passes s w s') :
    w.length + s'.remaining = s.remaining := by
  have := congrArg List.length h.ahead_eq
  rw [List.length_append, List.length_map, List.length_map] at this
  rw [← Stream.length_ahead, ← Stream.length_ahead, this]

end Passes

/-! ## Places -/

namespace Span

/-- The span lies in the four gigabytes from an offset on. -/
structure Within (base : Nat) (s : Span) : Prop where
  base_le : base ≤ s.lo
  hi_lt : s.hi < base + Span.limit

/-- A span holds any two spans that lie in the same four gigabytes. -/
theorem Within.exists_cover {base : Nat} {a b : Span} (ha : a.Within base) (hb : b.Within base) :
    ∃ c, a.cover b = .ok c ∧ c.Within base := by
  have hlo := a.lo_le_hi
  have hle := ha.base_le
  have hle' := hb.base_le
  have hlt := ha.hi_lt
  have hlt' := hb.hi_lt
  have hlength : max a.hi b.hi - min a.lo b.lo < Span.limit := by omega
  have hcover : a.cover b = .ok ⟨min a.lo b.lo, max a.hi b.hi - min a.lo b.lo, hlength⟩ := by
    rw [cover, ofBounds, if_neg (by omega), dif_pos hlength]
  refine ⟨_, hcover, ?_⟩
  obtain ⟨hclo, hchi⟩ := cover_eq_ok_iff.mp hcover
  exact ⟨by omega, by omega⟩

theorem within_zero {s : Span} (h : s.hi < Span.limit) : s.Within 0 :=
  ⟨Nat.zero_le _, by omega⟩

/-- A span holds any two spans of the first four gigabytes. -/
theorem exists_cover {a b : Span} (ha : a.hi < Span.limit) (hb : b.hi < Span.limit) :
    ∃ c, a.cover b = .ok c := by
  obtain ⟨c, hc, -⟩ := (within_zero ha).exists_cover (within_zero hb)
  exact ⟨c, hc⟩

end Span

/-- The tokens of the symbols ahead lie in the four gigabytes from an offset on. -/
def Token.Stream.Within (base : Nat) (s : Stream) (w : List Symbol) : Prop :=
  ∀ t ∈ s.ahead.take w.length, t.span.Within base

namespace Token.Stream.Within

variable {base : Nat} {s s' : Stream} {x : Symbol} {u v w : List Symbol}

theorem of_ahead {ts rest : List Token} (hs : s.ahead = ts ++ rest)
    (h : ∀ t ∈ ts, t.span.Within base) : s.Within base (ts.map symbol) := by
  intro t ht
  rw [List.length_map, hs, List.take_left] at ht
  exact h t ht

theorem of_near (h : s.Near) (w : List Symbol) : s.Within 0 w := by
  intro t ht
  have hmem : t ∈ s.tokens :=
    Array.mem_toList_iff.mp (List.mem_of_mem_drop (List.mem_of_mem_take ht))
  exact Span.within_zero (h t hmem)

theorem head {t : Token} {rest : List Token} (h : s.Within base (x :: w))
    (hs : s.ahead = t :: rest) : t.span.Within base := by
  apply h
  rw [hs, List.length_cons, List.take_succ_cons]
  exact List.mem_cons_self ..

theorem tail {t : Token} {rest : List Token} (h : s.Within base (x :: w))
    (hs : s.ahead = t :: rest) : s.step.Within base w := by
  intro u hu
  apply h
  rw [ahead_step hs] at hu
  rw [hs, List.length_cons, List.take_succ_cons]
  exact List.mem_cons_of_mem t hu

theorem left (h : s.Within base (u ++ v)) : s.Within base u := by
  intro t ht
  apply h
  rw [List.length_append]
  exact List.take_subset_take_left _ (Nat.le_add_right ..) ht

theorem right (h : s.Within base (u ++ v)) (hu : Passes s u s') : s'.Within base v := by
  intro t ht
  apply h
  rw [hu.eq_skip, ahead_skip] at ht
  rw [List.length_append, List.take_add]
  exact List.mem_append_right _ ht

end Token.Stream.Within

/-! ## Parsers of single tokens -/

namespace Parsing

theorem bind_of_ok {α β : Type} {x : Parser α} {f : α → Parser β} {a : α} {s r : State}
    (h : x s = .ok a r) : (x >>= f) s = f a r := by
  change EStateM.bind x f s = _
  unfold EStateM.bind
  rw [h]

variable {s : Stream} {ds : List (String × VarType)} {t : Token} {rest : List Token}

theorem run_current (h : s.ahead = t :: rest) : current ⟨s, ds⟩ = .ok t ⟨s, ds⟩ := by
  rw [← Stream.current_of_ahead h]
  rfl

theorem run_advance (h : s.ahead = t :: rest) (ht : t.kind ≠ .endOfInput) :
    advance ⟨s, ds⟩ = .ok t ⟨s.step, ds⟩ := by
  rw [advance_eq_ok_iff]
  have hcur := Stream.current_of_ahead h
  exact ⟨⟨hcur ▸ ht, Stream.cursor_lt h⟩, hcur.symm, rfl⟩

theorem run_expect {kind : Kind} (h : s.ahead = t :: rest) (ht : t.kind = kind)
    (hkind : kind ≠ .endOfInput) : expect kind ⟨s, ds⟩ = .ok t ⟨s.step, ds⟩ := by
  rw [expect_eq_ok_iff hkind]
  have hcur := Stream.current_of_ahead h
  exact ⟨⟨hcur ▸ ht, Stream.cursor_lt h⟩, hcur.symm, rfl⟩

theorem run_expect_end (h : s.ahead = t :: rest) (ht : t.kind = .endOfInput) :
    expect .endOfInput ⟨s, ds⟩ = .ok t ⟨s, ds⟩ := by
  have hcur := Stream.current_of_ahead h
  simp [expect, pass, Stream.expect, hcur, ht]

theorem run_take {kind : Kind} (h : s.ahead = t :: rest) (ht : t.kind = kind) :
    take kind ⟨s, ds⟩ = .ok true ⟨s.step, ds⟩ := by
  have hcur := Stream.current_of_ahead h
  simp [take, Stream.take, hcur, ht]

theorem run_take_other {kind : Kind} (h : s.ahead = t :: rest) (ht : t.kind ≠ kind) :
    take kind ⟨s, ds⟩ = .ok false ⟨s, ds⟩ := by
  have hcur := Stream.current_of_ahead h
  simp [take, Stream.take, hcur, ht]

/-- The span that covers two spans of the same four gigabytes. -/
theorem run_cover {base : Nat} {a b : Span} (ha : a.Within base) (hb : b.Within base)
    (state : State) : ∃ c, cover a b state = .ok c state ∧ c.Within base := by
  obtain ⟨c, hc, hwithin⟩ := ha.exists_cover hb
  refine ⟨c, ?_, hwithin⟩
  unfold cover
  rw [hc]

theorem state_of_cover {a b c : Span} {s t : State} (h : cover a b s = .ok c t) : t = s := by
  unfold cover at h
  split at h
  · cases h
    rfl
  · cases h

/-- The token ahead of a stream that is not at its end. -/
theorem exists_ahead {s : Stream} (hc : Token.Complete s.ahead) :
    ∃ rest, s.ahead = s.current :: rest := by
  cases h : s.ahead with
  | nil => exact absurd h hc.ne_nil
  | cons t rest => exact ⟨rest, by rw [Stream.current_of_ahead h]⟩

theorem passes_of_advance {state : State} (hc : Token.Complete s.ahead)
    (h : advance ⟨s, ds⟩ = .ok t state) :
    state = ⟨s.step, ds⟩ ∧ t = s.current ∧ t.kind ≠ .endOfInput ∧ t.Regular ∧
      Passes s [symbol t] s.step := by
  obtain ⟨⟨hkind, _⟩, rfl, rfl⟩ := advance_eq_ok_iff.mp h
  obtain ⟨rest, hrest⟩ := exists_ahead hc
  exact ⟨rfl, rfl, hkind, hc.regular _ (by rw [hrest]; simp), Passes.one hc hrest hkind⟩

theorem passes_of_expect {kind : Kind} (hkind : kind ≠ .endOfInput) {state : State}
    (hc : Token.Complete s.ahead) (h : expect kind ⟨s, ds⟩ = .ok t state) :
    state = ⟨s.step, ds⟩ ∧ t.kind = kind ∧ t.Regular ∧ Passes s [symbol t] s.step := by
  obtain ⟨⟨ht, _⟩, rfl, rfl⟩ := (expect_eq_ok_iff hkind).mp h
  obtain ⟨rest, hrest⟩ := exists_ahead hc
  have hne : s.current.kind ≠ .endOfInput := fun he => hkind (ht.symm.trans he)
  exact ⟨rfl, ht, hc.regular _ (by rw [hrest]; simp), Passes.one hc hrest hne⟩

/-- A token that was to be passed and whose kind leaves nothing open. -/
theorem passes_of_expect_mark {kind : Kind} (hkind : kind.isFixed = true) {state : State}
    (hc : Token.Complete s.ahead) (h : expect kind ⟨s, ds⟩ = .ok t state) :
    state = ⟨s.step, ds⟩ ∧ Passes s [.mark kind] s.step := by
  obtain ⟨rfl, rfl, _, hp⟩ := passes_of_expect (Kind.ne_end_of_isFixed hkind) hc h
  exact ⟨rfl, Grammar.symbol_eq_mark (Kind.hasText_of_isFixed hkind) ▸ hp⟩

end Parsing

end Bukvar
