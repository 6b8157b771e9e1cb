import Bukvar.Proofs.Parsing.Step

/-!
# Derived expressions are read

Reading a derived word brings the reader of expressions to the operators behind its tree
(`readAt_word`), whatever stands behind the word, as long as it does not continue the word at
its level. This carries the induction over derivations: the left side of an operator is read
with the operator behind it, and the reader of operators takes over from there.

* `expression_complete`: a derived word is read as the tree of its derivation.
-/

namespace Bukvar.Parsing

open Token (Stream Kind)
open Grammar (Symbol symbol Derivation Target Level level)

variable {base : Nat} {ds : List (String × VarType)}

/-! ## Coming to the operators -/

/-- Reading `n` tokens with the given fuel, the reader of expressions comes to the operators
that follow the given tree. What it has read lies in four gigabytes. -/
def Reaches (base : Nat) (ds : List (String × VarType)) (fuel least : Nat) (s s' : Stream)
    (n : Nat) (tree : Expr) : Prop :=
  ∃ e fuel', fuel ≤ fuel' + n ∧ e.bare = tree ∧ e.span.Within base ∧
    expressionWithin fuel least ⟨s, ds⟩ = operatorsWithin fuel' least e ⟨s', ds⟩

theorem Reaches.finish {fuel least n : Nat} {s s' : Stream} {tree : Expr}
    (h : Reaches base ds fuel least s s' n tree) (hfuel : n < fuel)
    (hstop : ∀ op, s'.current.kind = .operator op → op.leftPower < least) :
    ∃ e, expressionWithin fuel least ⟨s, ds⟩ = .ok e ⟨s', ds⟩ ∧ e.bare = tree ∧
      e.span.Within base := by
  obtain ⟨e, fuel', hle, hbare, hspan, hrun⟩ := h
  obtain ⟨k, rfl⟩ : ∃ k, fuel' = k + 1 := ⟨fuel' - 1, by omega⟩
  exact ⟨e, hrun.trans (run_operators_stop hstop), hbare, hspan⟩

theorem reaches_leaf {fuel least : Nat} {s s' : Stream} {x : Symbol} {d : Derivation .primary}
    (hwithin : s.Within base [x]) (hd : leaf? x = some d) (hx : x.Fits)
    (hk : x.kind.hasText = true) (h : Passes s [x] s') :
    Reaches base ds (fuel + 1) least s s' 1 d.tree := by
  obtain ⟨t, rest, hs, rfl, ht, hne, hp⟩ := h.uncons
  obtain ⟨d', hd', hbare⟩ := exists_leaf hk
  obtain rfl := Option.some.inj (hd'.symm.trans hd)
  have hs' : s' = s.step := h.eq_skip
  refine ⟨placed t, fuel, Nat.le_refl _, hbare, ?_, ?_⟩
  · rw [span_placed]
    exact hwithin.head hs
  · rw [expressionWithin, bind_of_ok (run_advance hs hne),
      bind_of_ok ((operand_eq_ok_iff ht hk).mpr ⟨hx, rfl, rfl⟩), hs']

theorem reaches_group {fuel least : Nat} {s s' : Stream} {w : List Symbol} {tree : Expr}
    (hwithin : s.Within base (Grammar.grouped w))
    (hin : ∀ m m', m.Within base w → Passes m w m' → m'.current.kind = .rightParen →
      Reaches base ds fuel 0 m m' w.length tree)
    (hfuel : w.length < fuel) (h : Passes s (Grammar.grouped w) s') :
    Reaches base ds (fuel + 1) least s s' (w.length + 2) tree := by
  obtain ⟨t, rest, hs, ht, -, hne, hp⟩ := Passes.uncons h
  have hinner := hwithin.tail hs
  obtain ⟨m, hm, hclose⟩ := hp.split
  obtain ⟨u, rest', hu, husym, -⟩ := hclose.uncons
  have hs' : s' = m.step := hclose.eq_skip
  have htk : t.kind = .leftParen := congrArg Symbol.kind ht
  have huk : u.kind = .rightParen := congrArg Symbol.kind husym
  have hcur : m.current.kind = .rightParen := by rw [Stream.current_of_ahead hu, huk]
  obtain ⟨e, hrun, hbare, hspan⟩ := (hin s.step m hinner.left hm hcur).finish hfuel (by simp [hcur])
  obtain ⟨c, hc, hcover⟩ := run_cover (hwithin.head hs) ((hinner.right hm).head hu) ⟨m.step, ds⟩
  refine ⟨e.withSpan c, fuel, by omega, by rw [Expr.bare_withSpan, hbare],
    by simpa using hcover, ?_⟩
  rw [expressionWithin, bind_of_ok (run_advance hs hne)]
  have hop : operand (expressionWithin fuel 0) t ⟨s.step, ds⟩ =
      .ok (e.withSpan c) ⟨m.step, ds⟩ := by
    unfold operand
    simp only [htk]
    rw [bind_of_ok hrun, bind_of_ok (run_expect hu huk (by decide)), bind_of_ok hc]
    rfl
  rw [bind_of_ok hop, hs']

theorem reaches_operation {fuel least nl : Nat} {s m s' : Stream} {op : Operator} {w : List Symbol}
    {tl tr : Expr} (hl : Reaches base ds fuel least s m nl tl)
    (hr : ∀ f, w.length < f → Reaches base ds f op.rightPower m.step s' w.length tr)
    (h : Passes m (.mark (.operator op) :: w) s') (hleast : least ≤ op.leftPower)
    (hassign : op = .assign → tl.isIdent = true)
    (hstop : ∀ op', s'.current.kind = .operator op' →
      op'.leftPower < op.rightPower ∧ ¬ (op.isComparison = true ∧ op'.isComparison = true))
    (hfuel : nl + (w.length + 1) < fuel) :
    Reaches base ds fuel least s s' (nl + (w.length + 1)) (.binary op tl tr (.empty 0)) := by
  obtain ⟨e, fuel', hle, hbare, hspan, hrun⟩ := hl
  obtain ⟨k, rfl⟩ : ∃ k, fuel' = k + 1 := ⟨fuel' - 1, by omega⟩
  obtain ⟨t, rest, hs, ht, htr, hne, hp⟩ := h.uncons
  have htk : t.kind = .operator op := congrArg Symbol.kind ht
  obtain ⟨er, hrunr, hbarer, hspanr⟩ :=
    (hr k (by omega)).finish (by omega) fun op' hop' => (hstop op' hop').1
  obtain ⟨c, hc, hcover⟩ := run_cover hspan hspanr ⟨s', ds⟩
  have hcmp : ¬ (op.isComparison = true ∧ s'.current.kind.isComparison = true) := by
    rintro ⟨h1, h2⟩
    cases hk : s'.current.kind with
    | operator op' => exact (hstop op' hk).2 ⟨h1, by simpa [hk, Kind.isComparison] using h2⟩
    | _ => simp [hk, Kind.isComparison] at h2
  have hjoin : joined (expressionWithin k op.rightPower) op e ⟨m.step, ds⟩ =
      .ok (.binary op e er c) ⟨s', ds⟩ := by
    rw [joined_eq_ok_iff]
    refine ⟨fun ha => ?_, er, c, hrunr, hcmp, hc, rfl⟩
    rw [← Expr.isIdent_bare, hbare]
    exact hassign ha
  refine ⟨.binary op e er c, k, by omega, by rw [Expr.bare, hbare, hbarer], hcover, ?_⟩
  rw [hrun, run_operators_step hs htk hleast hjoin]

/-- The least rank of an operator that can stand behind a word of the level and not continue
it. Behind a comparison this excludes another one. -/
def followRank : Level → Nat
  | .primary => 0
  | .product => 1
  | .sum => 2
  | .comparison => 4
  | .assignment => 5

/-- The next token does not continue a word of the level. -/
def Closed (l : Level) (s : Stream) : Prop :=
  ∀ op, s.current.kind = .operator op → followRank l ≤ (level op).rank

/-- A power that all operators of the level and below reach. -/
def Admits (least : Nat) (l : Level) : Prop :=
  ∀ op, (level op).rank ≤ l.rank → least ≤ op.leftPower

theorem Closed.mono {l l' : Level} {s : Stream} (h : Closed l s)
    (hl : followRank l' ≤ followRank l) : Closed l' s :=
  fun op hop => Nat.le_trans hl (h op hop)

theorem Admits.mono {least : Nat} {l l' : Level} (h : Admits least l) (hl : l'.rank ≤ l.rank) :
    Admits least l' :=
  fun op hop => h op (Nat.le_trans hop hl)

theorem admits_zero (l : Level) : Admits 0 l :=
  fun _ _ => Nat.zero_le _

theorem admits_rightPower (op : Operator) : Admits op.rightPower (rightLevel op) := by
  intro op' h
  cases op <;> cases op' <;> revert h <;> decide

theorem followRank_leftLevel (op : Operator) : followRank (leftLevel op) ≤ (level op).rank := by
  cases op <;> decide

theorem followRank_rightLevel (op : Operator) :
    followRank (rightLevel op) ≤ followRank (level op) := by
  cases op <;> decide

theorem rank_leftLevel (op : Operator) : (leftLevel op).rank ≤ (level op).rank := by
  cases op <;> decide

/-- Behind the right side of an operator stands none that this side would have taken, nor a
second comparison. -/
theorem weak_of_followRank {op op' : Operator} (h : followRank (level op) ≤ (level op').rank) :
    op'.leftPower < op.rightPower ∧ ¬ (op.isComparison = true ∧ op'.isComparison = true) := by
  cases op <;> cases op' <;> revert h <;> decide

/-- Wherever the word lies ahead and is not continued behind it, the reader of expressions
comes to the operators that follow its tree. -/
def ReadAt (l : Level) (w : List Symbol) (tree : Expr) : Prop :=
  ∀ base ds fuel least s s', s.Within base w → Passes s w s' → Closed l s' → Admits least l →
    (∀ x ∈ w, x.Fits) → w.length < fuel → Reaches base ds fuel least s s' w.length tree

theorem ReadAt.mono {l l' : Level} {w : List Symbol} {tree : Expr} (h : ReadAt l w tree)
    (hf : followRank l ≤ followRank l') (hr : l.rank ≤ l'.rank) : ReadAt l' w tree :=
  fun base ds fuel least s s' hwithin hp hc ha =>
    h base ds fuel least s s' hwithin hp (hc.mono hf) (ha.mono hr)

theorem readAt_leaf {x : Symbol} {d : Derivation .primary} (hd : leaf? x = some d)
    (hk : x.kind.hasText = true) : ReadAt .primary [x] d.tree := by
  intro base ds fuel least s s' hwithin hp _ _ hfits hfuel
  obtain ⟨k, rfl⟩ : ∃ k, fuel = k + 1 := ⟨fuel - 1, by simp at hfuel; omega⟩
  exact reaches_leaf hwithin hd (hfits x (by simp)) hk hp

theorem readAt_grouped {l : Level} {w : List Symbol} {tree : Expr} (h : ReadAt l w tree) :
    ReadAt .primary (Grammar.grouped w) tree := by
  intro base ds fuel least s s' hwithin hp _ _ hfits hfuel
  have hlen : (Grammar.grouped w).length = w.length + 2 := by simp [Grammar.grouped]
  obtain ⟨k, rfl⟩ : ∃ k, fuel = k + 1 := ⟨fuel - 1, by omega⟩
  rw [hlen]
  refine reaches_group hwithin ?_ (by omega) hp
  intro m m' hinner hm hclose
  refine h base ds k 0 m m' hinner hm ?_ (admits_zero l) ?_ (by omega)
  · intro op hop
    rw [hclose] at hop
    cases hop
  · intro x hx
    exact hfits x (by simp [Grammar.grouped, hx])

theorem readAt_operation {op : Operator} {u v : List Symbol} {tl tr : Expr}
    (hu : ReadAt (leftLevel op) u tl) (hv : ReadAt (rightLevel op) v tr)
    (hassign : op = .assign → tl.isIdent = true) :
    ReadAt (level op) (u ++ .mark (.operator op) :: v) (.binary op tl tr (.empty 0)) := by
  intro base ds fuel least s s' hwithin hp hclosed hadm hfits hfuel
  rw [List.length_append, List.length_cons] at hfuel ⊢
  obtain ⟨m, hm, hrest⟩ := hp.split
  obtain ⟨t, rest, hs, ht, -, -, hright⟩ := hrest.uncons
  have htk : m.current.kind = .operator op := by
    rw [Stream.current_of_ahead hs]
    exact congrArg Symbol.kind ht
  have hmclosed : Closed (leftLevel op) m := by
    intro op' hop'
    rw [htk, Kind.operator.injEq] at hop'
    exact hop' ▸ followRank_leftLevel op
  refine reaches_operation
    (hu base ds fuel least s m hwithin.left hm hmclosed (hadm.mono (rank_leftLevel op)) ?_
      (by omega))
    ?_ hrest (hadm op (Nat.le_refl _)) hassign ?_ hfuel
  · intro x hx
    exact hfits x (List.mem_append_left _ hx)
  · intro f hf
    refine hv base ds f op.rightPower m.step s' ((hwithin.right hm).tail hs) hright
      (hclosed.mono (followRank_rightLevel op)) (admits_rightPower op) ?_ hf
    intro x hx
    exact hfits x (List.mem_append_right _ (List.mem_cons_of_mem _ hx))
  · intro op' hop'
    exact weak_of_followRank (hclosed op' hop')

theorem readAt_target (t : Target) : ReadAt .primary t.word t.tree := by
  induction t with
  | name text => exact readAt_leaf (d := .name text) rfl rfl
  | group inner ih => exact readAt_grouped ih

/-- Every derived word is read, and as the tree of its derivation. -/
theorem readAt_word {l : Level} (d : Derivation l) : ReadAt l d.word d.tree := by
  induction d with
  | assign target value ih =>
    exact @readAt_operation .assign _ _ _ _ (readAt_target target) ih fun _ =>
      target.isIdent_tree
  | compare lhs op hop rhs ihl ihr =>
    have h := @readAt_operation op lhs.word rhs.word lhs.tree rhs.tree
    obtain ⟨hlevel, hleft, hright, hne⟩ := levels_of_isComparison hop
    rw [hlevel, hleft, hright] at h
    exact h ihl ihr (absurd · hne)
  | add lhs op hop rhs ihl ihr =>
    have h := @readAt_operation op lhs.word rhs.word lhs.tree rhs.tree
    obtain ⟨hlevel, hleft, hright, hne⟩ := levels_of_isAdditive hop
    rw [hlevel, hleft, hright] at h
    exact h ihl ihr (absurd · hne)
  | multiply lhs op hop rhs ihl ihr =>
    have h := @readAt_operation op lhs.word rhs.word lhs.tree rhs.tree
    obtain ⟨hlevel, hleft, hright, hne⟩ := levels_of_isMultiplicative hop
    rw [hlevel, hleft, hright] at h
    exact h ihl ihr (absurd · hne)
  | ofComparison _ ih | ofSum _ ih | ofProduct _ ih | ofPrimary _ ih =>
    exact ih.mono (by decide) (by decide)
  | name text => exact readAt_leaf (d := .name text) rfl rfl
  | integer text => exact readAt_leaf (d := .integer text) rfl rfl
  | double text => exact readAt_leaf (d := .double text) rfl rfl
  | string text => exact readAt_leaf (d := .string text) rfl rfl
  | group inner ih => exact readAt_grouped ih

/-- A derived word is read up to its end where no operator follows. -/
theorem expression_complete (d : Derivation .assignment) {s s' : Stream}
    (hwithin : s.Within base d.word) (h : Passes s d.word s') (hfits : ∀ x ∈ d.word, x.Fits)
    (hnext : ∀ op, s'.current.kind ≠ .operator op) :
    ∃ e, expression ⟨s, ds⟩ = .ok e ⟨s', ds⟩ ∧ e.bare = d.tree := by
  have hlen := h.length_le
  obtain ⟨e, hrun, hbare, -⟩ := (readAt_word d base ds (s.remaining + 1) 0 s s' hwithin h
    (fun op hop => absurd hop (hnext op)) (admits_zero _) hfits (by omega)).finish (by omega)
    (fun op hop => absurd hop (hnext op))
  exact ⟨e, hrun, hbare⟩

end Bukvar.Parsing
