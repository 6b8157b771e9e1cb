import Bukvar.Proofs.Grammar.Legible
import Bukvar.Proofs.Grammar.Uniqueness
import Bukvar.Proofs.Parsing.Soundness
import Bukvar.Proofs.Token.Slices

/-!
# The places of an expression and its parts

`Spells` relates tokens to an expression with all its spans: a token by itself is an operand at its
place, parentheses widen the span of what they enclose, and an operator covers its two sides. The
level is that of the grammar. Every part of an expression is spelled by tokens of its own, and these
tokens determine it: they are derived in one way only, and the spans follow from the tokens.

* `Spells.exists_derivation`: what is spelled is derived at the level.
* `Spells.unique`: tokens and a bare tree determine all spans.
* `Spells.exists_of_mem_subterms`: the tokens of a part.
* `Spells.spread`: where an expression and its two sides start and end.
* `expression_spelled`: what the reader of expressions gives is spelled by the tokens it passed.
-/

namespace Bukvar

open Token (Kind Stream)
open Grammar (Symbol symbol Derivation Level level Balanced)

/-! ## Moved expressions -/

/-- The name further behind. -/
def Ident.moved (k : Nat) (id : Ident) : Ident :=
  { id with span := id.span.moved k }

namespace Expr

/-- The expression with all its parts further behind. -/
def moved (k : Nat) : Expr → Expr
  | binary op lhs rhs span => binary op (lhs.moved k) (rhs.moved k) (span.moved k)
  | ident id span => ident (id.moved k) (span.moved k)
  | integer value span => integer value (span.moved k)
  | double value span => double value (span.moved k)
  | string value span => string value (span.moved k)

theorem span_moved (k : Nat) (e : Expr) : (e.moved k).span = e.span.moved k := by
  cases e <;> rfl

theorem withSpan_moved (k : Nat) (e : Expr) (span : Span) :
    (e.withSpan span).moved k = (e.moved k).withSpan (span.moved k) := by
  cases e <;> rfl

theorem isIdent_moved (k : Nat) (e : Expr) : (e.moved k).isIdent = e.isIdent := by
  cases e <;> rfl

theorem bare_moved (k : Nat) (e : Expr) : (e.moved k).bare = e.bare := by
  induction e with
  | binary op lhs rhs span ihl ihr => rw [moved, bare, bare, ihl, ihr]
  | _ => rfl

/-- Other spans make no difference to the parts inside. -/
theorem mem_subterms_withSpan {n e : Expr} {span : Span} (h : n ∈ (e.withSpan span).subterms) :
    n = e.withSpan span ∨ n ∈ e.subterms := by
  cases e with
  | binary op lhs rhs span' =>
    rcases List.mem_cons.mp h with rfl | h
    · exact .inl rfl
    · exact .inr (List.mem_cons_of_mem _ h)
  | _ => exact .inl (List.mem_singleton.mp h)

/-- The sides of an operation follow each other inside its span. -/
def SidesInOrder : Expr → Prop
  | binary _ lhs rhs span =>
    span.lo ≤ lhs.span.lo ∧ lhs.span.hi ≤ rhs.span.lo ∧ rhs.span.hi ≤ span.hi
  | _ => True

theorem SidesInOrder.withSpan {e : Expr} {span : Span} (h : e.SidesInOrder)
    (hlo : span.lo ≤ e.span.lo) (hhi : e.span.hi ≤ span.hi) : (e.withSpan span).SidesInOrder := by
  cases e with
  | binary op lhs rhs inner =>
    obtain ⟨hleft, horder, hright⟩ := h
    exact ⟨Nat.le_trans hlo hleft, horder, Nat.le_trans hright hhi⟩
  | _ => trivial

end Expr

namespace Parsing

theorem placed_moved (k : Nat) (t : Token) : placed (t.moved k) = (placed t).moved k := by
  obtain ⟨kind, text, span⟩ := t
  cases kind <;> rfl

/-! ## Tokens of expressions -/

/-- The tokens are an expression of the level, with these spans. -/
inductive Spells : Level → List Token → Expr → Prop
  | leaf {t : Token} (hkind : t.kind.hasText = true) (hfits : (symbol t).Fits) :
    Spells .primary [t] (placed t)
  | group {opening closing : Token} {ts : List Token} {e : Expr} {span : Span}
    (hopen : opening.kind = .leftParen) (hinner : Spells .assignment ts e)
    (hclose : closing.kind = .rightParen) (hspan : opening.span.cover closing.span = .ok span) :
    Spells .primary (opening :: ts ++ [closing]) (e.withSpan span)
  | operation {op : Operator} {l : Level} {ls rs : List Token} {sign : Token} {lhs rhs : Expr}
    {span : Span} (hleft : Spells l ls lhs) (hsign : sign.kind = .operator op)
    (hright : Spells (rightLevel op) rs rhs)
    (hrank : op ≠ .assign → l.rank ≤ (leftLevel op).rank)
    (hassign : op = .assign → lhs.isIdent = true) (hspan : lhs.span.cover rhs.span = .ok span) :
    Spells (level op) (ls ++ sign :: rs) (.binary op lhs rhs span)
  | lift {l l' : Level} {ts : List Token} {e : Expr} (h : Spells l ts e)
    (hrank : l.rank ≤ l'.rank) : Spells l' ts e

variable {l l' : Level} {ts : List Token} {e n : Expr}

theorem symbol_of_kind {t : Token} {kind : Kind} (h : t.kind = kind)
    (htext : kind.hasText = false) : symbol t = .mark kind := by
  subst h
  exact Grammar.symbol_eq_mark htext

theorem map_symbol_group {opening closing : Token} (hopen : opening.kind = .leftParen)
    (hclose : closing.kind = .rightParen) (ts : List Token) :
    (opening :: ts ++ [closing]).map symbol = Grammar.grouped (ts.map symbol) := by
  rw [List.map_append, List.map_cons, List.map_singleton, symbol_of_kind hopen rfl,
    symbol_of_kind hclose rfl]
  rfl

theorem map_symbol_operation {sign : Token} {op : Operator} (hsign : sign.kind = .operator op)
    (ls rs : List Token) :
    (ls ++ sign :: rs).map symbol =
      ls.map symbol ++ .mark (.operator op) :: rs.map symbol := by
  rw [List.map_append, List.map_cons, symbol_of_kind hsign rfl]

namespace Spells

theorem ne_nil (h : Spells l ts e) : ts ≠ [] := by
  induction h with
  | leaf | group | operation => simp
  | lift _ _ ih => exact ih

theorem balanced (h : Spells l ts e) : Balanced (ts.map symbol) := by
  induction h with
  | @leaf t hkind _ =>
    refine Grammar.balanced_single ?_ ?_
    · intro hk
      rw [Grammar.kind_symbol] at hk
      rw [hk] at hkind
      cases hkind
    · intro hk
      rw [Grammar.kind_symbol] at hk
      rw [hk] at hkind
      cases hkind
  | group hopen _ hclose _ ih =>
    rw [map_symbol_group hopen hclose]
    exact Grammar.balanced_grouped ih
  | operation _ hsign _ _ _ _ ihl ihr =>
    rw [map_symbol_operation hsign]
    exact Grammar.balanced_operation _ ihl ihr
  | lift _ _ ih => exact ih

theorem fits (h : Spells l ts e) : ∀ x ∈ ts.map symbol, x.Fits := by
  induction h with
  | leaf _ hfits => simpa using hfits
  | group hopen _ hclose _ ih =>
    rw [map_symbol_group hopen hclose]
    exact Grammar.fits_grouped ih
  | operation _ hsign _ _ _ _ ihl ihr =>
    rw [map_symbol_operation hsign]
    exact Grammar.fits_append_cons ihl (Grammar.fits_mark rfl) ihr
  | lift _ _ ih => exact ih

/-- What is spelled is derived. -/
theorem exists_derivation (h : Spells l ts e) :
    ∃ d : Derivation l, d.word = ts.map symbol ∧ d.tree = e.bare := by
  induction h with
  | leaf hkind _ =>
    obtain ⟨d, hd, hbare⟩ := exists_leaf hkind
    exact ⟨d, word_of_leaf? hd, hbare.symm⟩
  | group hopen _ hclose _ ih =>
    obtain ⟨d, hword, htree⟩ := ih
    refine ⟨.group d, ?_, ?_⟩
    · rw [map_symbol_group hopen hclose, ← hword]
      rfl
    · rw [Expr.bare_withSpan, ← htree]
      rfl
  | operation _ hsign _ hrank hassign _ ihl ihr =>
    obtain ⟨dl, hwordl, htreel⟩ := ihl
    obtain ⟨dr, hwordr, htreer⟩ := ihr
    obtain ⟨d, hword, htree⟩ := exists_operation dl dr hrank fun ha => by
      rw [htreel, Expr.isIdent_bare]
      exact hassign ha
    refine ⟨d, ?_, ?_⟩
    · rw [hword, map_symbol_operation hsign, hwordl, hwordr]
    · rw [htree, htreel, htreer, Expr.bare]
  | lift _ hrank ih =>
    obtain ⟨d, hword, htree⟩ := ih
    obtain ⟨d', hword', htree'⟩ := exists_lift d hrank
    exact ⟨d', hword'.trans hword, htree'.trans htree⟩

theorem moved (k : Nat) (h : Spells l ts e) : Spells l (ts.map (Token.moved k)) (e.moved k) := by
  induction h with
  | @leaf t hkind hfits =>
    rw [← placed_moved]
    exact .leaf hkind hfits
  | @group opening closing ts e span hopen _ hclose hspan ih =>
    rw [Expr.withSpan_moved, List.map_append, List.map_cons]
    exact .group hopen ih hclose (Span.cover_moved k hspan)
  | @operation op l ls rs sign lhs rhs span _ hsign _ hrank hassign hspan ihl ihr =>
    rw [List.map_append, List.map_cons]
    refine .operation ihl hsign ihr hrank ?_ ?_
    · intro ha
      rw [Expr.isIdent_moved]
      exact hassign ha
    · rw [Expr.span_moved, Expr.span_moved]
      exact Span.cover_moved k hspan
  | lift _ hrank ih => exact .lift ih hrank

/-- The expression by its outermost tokens. -/
theorem cases (h : Spells l ts e) :
    (∃ t, ts = [t] ∧ e = placed t) ∨
      (∃ opening us closing inner span, ts = opening :: us ++ [closing] ∧
        opening.kind = .leftParen ∧ closing.kind = .rightParen ∧ Spells .assignment us inner ∧
        opening.span.cover closing.span = .ok span ∧ e = inner.withSpan span) ∨
      ∃ op l₁ l₂ ls sign rs lhs rhs span, ts = ls ++ sign :: rs ∧ sign.kind = .operator op ∧
        Spells l₁ ls lhs ∧ Spells l₂ rs rhs ∧ lhs.span.cover rhs.span = .ok span ∧
        e = .binary op lhs rhs span := by
  induction h with
  | @leaf t _ _ => exact .inl ⟨t, rfl, rfl⟩
  | group hopen hinner hclose hspan =>
    exact .inr (.inl ⟨_, _, _, _, _, rfl, hopen, hclose, hinner, hspan, rfl⟩)
  | operation hleft hsign hright _ _ hspan =>
    exact .inr (.inr ⟨_, _, _, _, _, _, _, _, _, rfl, hsign, hleft, hright, hspan, rfl⟩)
  | lift _ _ ih => exact ih

/-! ## One expression for the tokens -/

end Spells

/-- How many of the tokens are no parentheses. -/
def weight (ts : List Token) : Nat :=
  ts.countP fun t => t.kind ≠ .leftParen && t.kind ≠ .rightParen

theorem weight_append_sign {sign : Token} {op : Operator} (hsign : sign.kind = .operator op)
    (ls rs : List Token) : weight (ls ++ sign :: rs) = weight ls + weight rs + 1 := by
  rw [weight, List.countP_append, List.countP_cons_of_pos (by simp [hsign])]
  exact (Nat.add_assoc ..).symm

namespace Spells

/-- Every part of an expression has one token besides parentheses. -/
theorem weight_eq (h : Spells l ts e) : weight ts = e.bare.subterms.length := by
  induction h with
  | @leaf t hkind _ =>
    obtain ⟨kind, text, span⟩ := t
    cases kind <;> first | rfl | cases hkind
  | group hopen _ hclose _ ih =>
    rw [Expr.bare_withSpan, ← ih, weight, List.countP_append,
      List.countP_cons_of_neg (by simp [hopen]), List.countP_cons_of_neg (by simp [hclose])]
    rfl
  | operation _ hsign _ _ _ _ ihl ihr =>
    rw [weight_append_sign hsign, ihl, ihr]
    simp [Expr.bare, Expr.subterms]
  | lift _ _ ih => exact ih

end Spells

/-- Parentheses around tokens are no operation. -/
theorem group_ne_operation {opening closing sign : Token} {us ls rs : List Token} {inner lhs : Expr}
    (hopen : opening.kind = .leftParen) (hclose : closing.kind = .rightParen)
    (hinner : Spells l us inner) (hleft : Spells l' ls lhs) :
    opening :: us ++ [closing] ≠ ls ++ sign :: rs := by
  intro h
  have hwords := congrArg (List.map symbol) h
  rw [map_symbol_group hopen hclose, List.map_append] at hwords
  have hpos := Grammar.nesting_pos_of_grouped hinner.balanced hwords
    (by simpa using hleft.ne_nil) (by simp)
  rw [hleft.balanced.nesting_eq] at hpos
  omega

theorem singleton_ne_operation {t sign : Token} {ls rs : List Token} {lhs : Expr}
    (hleft : Spells l ls lhs) : [t] ≠ ls ++ sign :: rs := by
  intro h
  have hlength := congrArg List.length h
  have hpos := List.length_pos_iff.mpr hleft.ne_nil
  rw [List.length_singleton, List.length_append, List.length_cons] at hlength
  omega

theorem singleton_ne_group {t opening closing : Token} {us : List Token} :
    [t] ≠ opening :: us ++ [closing] := by
  intro h
  have hlength := congrArg List.length h
  rw [List.length_singleton, List.length_append, List.length_cons, List.length_singleton] at hlength
  omega

/-- Of two operations on the same tokens the sides take equally many tokens, if the left sides have
equally many parts. -/
theorem split_unique {sign sign' : Token} {op op' : Operator} {ls rs ls' rs' : List Token}
    (h : ls ++ sign :: rs = ls' ++ sign' :: rs') (hsign : sign.kind = .operator op)
    (hsign' : sign'.kind = .operator op') (hweight : weight ls = weight ls') :
    ls = ls' ∧ rs = rs' := by
  rcases List.append_eq_append_iff.mp h with ⟨m, rfl, hm⟩ | ⟨m, rfl, hm⟩
  · cases m with
    | nil => exact ⟨(List.append_nil ls).symm, (List.cons.inj hm).2⟩
    | cons t m =>
      obtain ⟨rfl, -⟩ := List.cons.inj hm
      rw [weight_append_sign hsign] at hweight
      omega
  · cases m with
    | nil => exact ⟨List.append_nil ls', (List.cons.inj hm).2.symm⟩
    | cons t m =>
      obtain ⟨rfl, -⟩ := List.cons.inj hm
      rw [weight_append_sign hsign'] at hweight
      omega

namespace Spells

/-- The tokens and the bare tree of an expression determine its spans, at every part. -/
theorem unique (h : Spells l ts e) {e' : Expr} (h' : Spells l' ts e') (hbare : e.bare = e'.bare) :
    e = e' := by
  induction h generalizing l' e' with
  | @leaf t _ _ =>
    rcases h'.cases with ⟨t', hts, rfl⟩ | ⟨opening, us, closing, inner, span, hts, -⟩ |
      ⟨op, l₁, l₂, ls, sign, rs, lhs, rhs, span, hts, -, hleft, -⟩
    · rw [(List.cons.inj hts).1]
    · exact absurd hts singleton_ne_group
    · exact absurd hts (singleton_ne_operation hleft)
  | @group opening closing ts e span hopen hinner hclose hspan ih =>
    rcases h'.cases with ⟨t', hts, rfl⟩ |
      ⟨opening', us, closing', inner, span', hts, -, -, hinner', hspan', rfl⟩ |
      ⟨op, l₁, l₂, ls, sign, rs, lhs, rhs, span', hts, -, hleft, -⟩
    · exact absurd hts.symm singleton_ne_group
    · obtain ⟨rfl, htail⟩ := List.cons.inj hts
      obtain ⟨rfl, hlast⟩ := List.append_inj' htail rfl
      obtain rfl := (List.cons.inj hlast).1
      rw [hspan, Except.ok.injEq] at hspan'
      rw [Expr.bare_withSpan, Expr.bare_withSpan] at hbare
      rw [ih hinner' hbare, hspan']
    · exact absurd hts (group_ne_operation hopen hclose hinner hleft)
  | @operation op l ls rs sign lhs rhs span hleft hsign hright _ _ hspan ihl ihr =>
    rcases h'.cases with ⟨t', hts, rfl⟩ |
      ⟨opening, us, closing, inner, span', hts, hopen, hclose, hinner, -⟩ |
      ⟨op', l₁, l₂, ls', sign', rs', lhs', rhs', span', hts, hsign', hleft', hright', hspan', rfl⟩
    · exact absurd hts.symm (singleton_ne_operation hleft)
    · exact absurd hts.symm (group_ne_operation hopen hclose hinner hleft)
    · obtain ⟨rfl, hbarel, hbarer, -⟩ := Expr.binary.inj hbare
      have hweight : weight ls = weight ls' := by
        rw [hleft.weight_eq, hleft'.weight_eq, hbarel]
      obtain ⟨rfl, rfl⟩ := split_unique hts hsign hsign' hweight
      obtain rfl := ihl hleft' hbarel
      obtain rfl := ihr hright' hbarer
      rw [hspan, Except.ok.injEq] at hspan'
      rw [hspan']
  | lift _ _ ih => exact ih h' hbare

/-! ## Parts -/

/-- Every part of an expression is spelled by some of its tokens that follow each other. -/
theorem exists_of_mem_subterms (h : Spells l ts e) (hn : n ∈ e.subterms) :
    ∃ l' before us after, ts = before ++ us ++ after ∧ Spells l' us n := by
  induction h with
  | @leaf t hkind hfits =>
    have hsubterms : (placed t).subterms = [placed t] := by
      unfold placed
      split <;> rfl
    rw [hsubterms, List.mem_singleton] at hn
    subst hn
    exact ⟨.primary, [], [t], [], rfl, .leaf hkind hfits⟩
  | @group opening closing ts e span hopen hinner hclose hspan ih =>
    rcases Expr.mem_subterms_withSpan hn with rfl | hn
    · exact ⟨.primary, [], _, [], by simp, .group hopen hinner hclose hspan⟩
    · obtain ⟨l', before, us, after, rfl, hpart⟩ := ih hn
      exact ⟨l', opening :: before, us, after ++ [closing], by simp, hpart⟩
  | @operation op l ls rs sign lhs rhs span hleft hsign hright hrank hassign hspan ihl ihr =>
    rcases List.mem_cons.mp hn with rfl | hn
    · exact ⟨level op, [], _, [], by simp, .operation hleft hsign hright hrank hassign hspan⟩
    · rcases List.mem_append.mp hn with hn | hn
      · obtain ⟨l', before, us, after, rfl, hpart⟩ := ihl hn
        exact ⟨l', before, us, after ++ sign :: rs, by simp, hpart⟩
      · obtain ⟨l', before, us, after, rfl, hpart⟩ := ihr hn
        exact ⟨l', ls ++ sign :: before, us, after, by simp, hpart⟩
  | lift _ _ ih => exact ih hn

/-- A variable is one of the tokens, inside any number of parentheses. -/
theorem exists_name {id : Ident} {span : Span} (h : Spells l ts (.ident id span)) :
    ∃ t ∈ ts, t.kind = .name ∧ id = ⟨t.text, t.span⟩ := by
  generalize he : Expr.ident id span = e at h
  induction h generalizing span with
  | @leaf t hkind _ =>
    refine ⟨t, List.mem_singleton_self t, ?_⟩
    unfold placed at he
    split at he
    next hname =>
      cases he
      exact ⟨hname, rfl⟩
    all_goals cases he
  | @group opening closing ts e span' _ _ _ _ ih =>
    cases e with
    | ident id' span'' =>
      cases he
      obtain ⟨t, ht, hname⟩ := ih rfl
      exact ⟨t, by simp [ht], hname⟩
    | _ => cases he
  | operation => cases he
  | lift _ _ ih => exact ih he

end Spells

/-- An expression starts and ends with its tokens, and its sides follow each other. -/
structure Spread (ts : List Token) (e : Expr) : Prop where
  starts : ∃ first, ts.head? = some first ∧ e.span.lo = first.span.lo
  ends : ∃ last, ts.getLast? = some last ∧ e.span.hi = last.span.hi
  sides : e.SidesInOrder

theorem Spells.spread (h : Spells l ts e)
    (hordered : ts.Pairwise fun t u => t.span.hi ≤ u.span.lo) : Spread ts e := by
  induction h with
  | @leaf t hkind _ =>
    refine ⟨⟨t, rfl, by rw [span_placed]⟩, ⟨t, rfl, by rw [span_placed]⟩, ?_⟩
    unfold placed
    split <;> trivial
  | @group opening closing ts e span _ _ _ hspan ih =>
    obtain ⟨hcons, -, hcross⟩ := List.pairwise_append.mp hordered
    obtain ⟨hopening, hts⟩ := List.pairwise_cons.mp hcons
    obtain ⟨⟨first, hfirst, hstarts⟩, ⟨last, hlast, hends⟩, hsides⟩ := ih hts
    obtain ⟨hlo, hhi⟩ := Span.cover_eq_ok_iff.mp hspan
    have hbefore := hopening first (List.mem_of_mem_head? hfirst)
    have hbehind := hcross last (List.mem_cons_of_mem _ (List.mem_of_mem_getLast? hlast)) closing
      (List.mem_singleton_self closing)
    have hpair := hcross opening (List.mem_cons_self ..) closing (List.mem_singleton_self closing)
    have hopeningLe := opening.span.lo_le_hi
    have hclosingLe := closing.span.lo_le_hi
    refine ⟨⟨opening, rfl, ?_⟩, ⟨closing, List.getLast?_concat, ?_⟩, hsides.withSpan ?_ ?_⟩
    · rw [Expr.span_withSpan]
      omega
    · rw [Expr.span_withSpan]
      omega
    · omega
    · omega
  | @operation op l ls rs sign lhs rhs span hleft _ hright _ _ hspan ihl ihr =>
    obtain ⟨hls, hcons, hcross⟩ := List.pairwise_append.mp hordered
    obtain ⟨⟨first, hfirst, hstarts⟩, ⟨leftLast, hleftLast, hleftEnds⟩, -⟩ := ihl hls
    obtain ⟨⟨rightFirst, hrightFirst, hrightStarts⟩, ⟨last, hlast, hends⟩, -⟩ :=
      ihr (List.pairwise_cons.mp hcons).2
    obtain ⟨hlo, hhi⟩ := Span.cover_eq_ok_iff.mp hspan
    have hbetween := hcross leftLast (List.mem_of_mem_getLast? hleftLast) rightFirst
      (List.mem_cons_of_mem _ (List.mem_of_mem_head? hrightFirst))
    have hlhs := lhs.span.lo_le_hi
    have hrhs := rhs.span.lo_le_hi
    have hspanLo : span.lo = lhs.span.lo := by omega
    have hspanHi : span.hi = rhs.span.hi := by omega
    refine ⟨⟨first, ?_, hspanLo.trans hstarts⟩, ⟨last, ?_, hspanHi.trans hends⟩, ?_⟩
    · rw [List.head?_append, hfirst]
      rfl
    · rw [List.getLast?_append, List.getLast?_cons, hlast]
      rfl
    · exact ⟨Nat.le_of_eq hspanLo, by omega, Nat.le_of_eq hspanHi.symm⟩
  | lift _ _ ih => exact ih hordered

/-! ## The reader of expressions -/

/-- The tokens between two streams spell the expression. -/
def SpelledBetween (l : Level) (e : Expr) (s s' : Stream) : Prop :=
  ∃ ts, s.ahead = ts ++ s'.ahead ∧ Passes s (ts.map symbol) s' ∧ Spells l ts e

theorem ahead_of_passes {s s' : Stream} {x : Symbol} (h : Passes s [x] s') :
    symbol s.current = x ∧ s.ahead = s.current :: s.step.ahead := by
  obtain ⟨t, rest, hs, hx, -⟩ := h.uncons
  have hcurrent := Stream.current_of_ahead hs
  subst hcurrent
  rw [Stream.ahead_step hs]
  exact ⟨hx, hs⟩

theorem builds_spelledBetween : Builds SpelledBetween where
  complete_right := by
    rintro l e s s' ⟨ts, -, hp, -⟩
    exact hp.complete_right
  lift := by
    rintro l l' e s s' ⟨ts, hs, hp, hspells⟩ hrank
    exact ⟨ts, hs, hp, .lift hspells hrank⟩
  leaf := by
    intro s hkind hfits hp
    exact ⟨[s.current], (ahead_of_passes hp).2, hp, .leaf hkind hfits⟩
  group := by
    rintro e s m span hopen ⟨ts, hs, hp, hspells⟩ hclose hspan
    obtain ⟨hopening, hsahead⟩ := ahead_of_passes hopen
    obtain ⟨hclosing, hmahead⟩ := ahead_of_passes hclose
    have hkind : s.current.kind = .leftParen := congrArg Symbol.kind hopening
    have hkind' : m.current.kind = .rightParen := congrArg Symbol.kind hclosing
    refine ⟨s.current :: ts ++ [m.current], ?_, ?_, .group hkind hspells hkind' hspan⟩
    · rw [hsahead, hs, hmahead]
      simp
    · rw [map_symbol_group hkind hkind']
      exact hopen.trans (hp.trans hclose)
  operation := by
    rintro op l lhs rhs s m s' span ⟨ls, hs, hpl, hleft⟩ ⟨rs, hm, hpr, hright⟩ hop hrank hassign
      hspan
    obtain ⟨hsign, hmahead⟩ := ahead_of_passes hop
    have hkind : m.current.kind = .operator op := congrArg Symbol.kind hsign
    refine ⟨ls ++ m.current :: rs, ?_, ?_,
      .operation hleft hkind hright hrank hassign hspan⟩
    · rw [hs, hmahead, hm]
      simp
    · rw [map_symbol_operation hkind]
      exact hpl.trans (hop.trans hpr)

/-- An expression that was read is spelled by the tokens that were passed, and something is left. -/
theorem expression_spelled {ds : List (String × VarType)} {s : Stream} {m : State}
    (hc : Token.Complete s.ahead) (h : expression ⟨s, ds⟩ = .ok e m) :
    ∃ ts, s.ahead = ts ++ m.stream.ahead ∧ m.stream.ahead ≠ [] ∧ Spells .assignment ts e := by
  obtain ⟨s', rfl, ⟨ts, hs, hp, hspells⟩, -⟩ := expression_built builds_spelledBetween hc h
  exact ⟨ts, hs, hp.remains, hspells⟩

end Parsing

end Bukvar
