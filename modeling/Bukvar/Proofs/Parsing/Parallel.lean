import Bukvar.Proofs.Parsing.Movement

/-!
# Readers that take the same steps

Every reader is put together from readers of single tokens. `Parallel` says so of two readers at
once that differ at most in their fuel: they take the same steps until one of them has no fuel left.
A `Scope` says what is known of the tokens, and which problems the readers raise then.

What holds of all readers follows from their steps, by one induction over `Parallel`:

* `Parallel.run`: the tokens stay, the cursor does not go back, and a problem is one that the scope
  names, or there was no token left.
* `Parallel.sameRun`: on two streams with the same tokens up to one place, both readers run alike
  as long as the cursor stays before that place. So no reader looks further than one token beyond
  its cursor, and the fuel has no part in a result.
-/

namespace Bukvar

open Token (Kind Stream)

/-- There is no token that could be passed. -/
def Token.Stream.Exhausted (s : Stream) : Prop :=
  s.current.kind = .endOfInput ∨ s.tokens.size ≤ s.cursor

namespace Diagnostic

/-- Problems with the order of the tokens, as opposed to their texts and their number. -/
def Problem.isSyntactic : Problem → Bool
  | unexpected .. | unexpectedAny .. | notAStatement _ | notAnOperand _ | unterminated ..
  | assignmentTarget | chainedComparison | loopWithoutCondition | undeclared _ => true
  | literalOutOfRange | malformedLiteral | outOfTokens | conversion _ => false

end Diagnostic

namespace Parsing

open Diagnostic (Problem)

variable {α β : Type}

/-! ## Steps -/

/-- The literal of a token has no value, for the given reason. -/
inductive Valueless (t : Token) : Decimal.LiteralError → Prop
  | integer {e : Decimal.LiteralError} (hkind : t.kind = .integerLiteral)
      (h : Decimal.readInteger t.text = .error e) : Valueless t e
  | double {e : Decimal.LiteralError} (hkind : t.kind = .doubleLiteral)
      (h : Decimal.readDouble t.text = .error e) : Valueless t e
  | string (hkind : t.kind = .stringLiteral) (h : unquote? t.text = none) :
    Valueless t .malformed

/-- What is known of tokens, and the problems that readers raise on them of their own accord. -/
structure Scope where
  token : Token → Prop
  problem : Problem → Prop
  syntactic {p : Problem} (h : p.isSyntactic = true) : problem p
  literal {t : Token} {e : Decimal.LiteralError} (ht : token t) (h : Valueless t e) :
    problem (.ofLiteralError e)

/-- The readers take the same steps, and their results have the given property. A reader without
fuel takes none; the other one is still put together from steps. -/
inductive Parallel (σ : Scope) : {α : Type} → Parser α → Parser α → (α → Prop) → Prop
  | pure {α : Type} {Q : α → Prop} {a : α} (h : Q a) : Parallel σ (pure a) (pure a) Q
  | bind {α β : Type} {Q : α → Prop} {R : β → Prop} {x y : Parser α} {f g : α → Parser β}
      (hx : Parallel σ x y Q) (hf : ∀ a, Q a → Parallel σ (f a) (g a) R) :
      Parallel σ (x >>= f) (y >>= g) R
  | get {α : Type} {Q : α → Prop} {f g : State → Parser α}
      (h : ∀ m n, Parallel σ (f m) (g n) Q) : Parallel σ (get >>= f) (get >>= g) Q
  | current : Parallel σ current current σ.token
  | next : Parallel σ next next σ.token
  | advance : Parallel σ advance advance σ.token
  | expect (kind : Kind) : Parallel σ (expect kind) (expect kind) σ.token
  | take (kind : Kind) : Parallel σ (take kind) (take kind) fun _ => True
  | cover (a b : Span) : Parallel σ (cover a b) (cover a b) fun _ => True
  | typeOf? (name : String) : Parallel σ (typeOf? name) (typeOf? name) fun _ => True
  | declare (name : String) (type : VarType) :
    Parallel σ (declare name type) (declare name type) fun _ => True
  | reject {α : Type} {Q : α → Prop} (span : Span) {problem : Problem} (h : σ.problem problem) :
    Parallel σ (reject span problem) (reject span problem) Q
  | noFuelLeft {α : Type} {Q : α → Prop} {y : Parser α} : Parallel σ (fail .outOfFuel) y Q
  | noFuelRight {α : Type} {Q : α → Prop} {x : Parser α} (h : Parallel σ x x Q) :
    Parallel σ x (fail .outOfFuel) Q

variable {σ : Scope} {x y : Parser α} {Q : α → Prop}

theorem Parallel.map {f : α → β} {R : β → Prop} (hx : Parallel σ x y Q)
    (h : ∀ a, Q a → R (f a)) : Parallel σ (f <$> x) (f <$> y) R := by
  rw [map_eq_pure_bind, map_eq_pure_bind]
  exact .bind hx fun a ha => .pure (h a ha)

/-- A reader that has stopped goes on with nothing. -/
theorem Parallel.reject_bind {R : β → Prop} (span : Span) {problem : Problem}
    (h : σ.problem problem) (f g : α → Parser β) :
    Parallel σ (Parsing.reject span problem >>= f) (Parsing.reject span problem >>= g) R :=
  .bind (Q := fun _ => False) (.reject span h) fun _ ha => ha.elim

/-! ## What a run leaves -/

/-- The same tokens, with the cursor not further back. -/
structure Onward (m n : State) : Prop where
  tokens : n.stream.tokens = m.stream.tokens
  le : m.stream.cursor ≤ n.stream.cursor

theorem Onward.refl (m : State) : Onward m m :=
  ⟨rfl, Nat.le_refl _⟩

theorem Onward.trans {m n r : State} (h : Onward m n) (h' : Onward n r) : Onward m r :=
  ⟨h'.tokens.trans h.tokens, Nat.le_trans h.le h'.le⟩

/-- The problem is one of the scope, or the reader stopped where there is no token to pass. -/
def Raised (σ : Scope) (p : Located Problem) (n : State) : Prop :=
  σ.problem p.value ∨ n.stream.Exhausted ∧ p = ⟨n.stream.current.span, .outOfTokens⟩

/-- How a run from a state may end. -/
def Ends (σ : Scope) (Q : α → Prop) (m : State) : EStateM.Result Failure State α → Prop
  | .ok a n => Onward m n ∧ Q a
  | .error (.problem p) n => Onward m n ∧ Raised σ p n
  | .error (.fault _) n => Onward m n

theorem Ends.of_onward {m n : State} {r : EStateM.Result Failure State α} (hm : Onward m n)
    (h : Ends σ Q n r) : Ends σ Q m r := by
  cases r with
  | ok a k => exact ⟨hm.trans h.1, h.2⟩
  | error e k =>
    cases e with
    | problem p => exact ⟨hm.trans h.1, h.2⟩
    | fault f => exact hm.trans h

theorem onward_step (m : State) : Onward m { m with stream := m.stream.step } :=
  ⟨rfl, Nat.le_succ _⟩

theorem ends_advance {m : State} (hm : ∀ t ∈ m.stream.tokens, σ.token t) :
    Ends σ σ.token m (advance m) := by
  unfold advance pass Stream.advance
  by_cases h : m.stream.current.kind = .endOfInput ∨ m.stream.tokens.size ≤ m.stream.cursor
  · rw [if_pos h]
    exact ⟨.refl m, .inr ⟨h, rfl⟩⟩
  · rw [if_neg h]
    exact ⟨onward_step m, hm _ (m.stream.look_mem 0)⟩

theorem ends_expect {m : State} (kind : Kind) (hm : ∀ t ∈ m.stream.tokens, σ.token t) :
    Ends σ σ.token m (expect kind m) := by
  by_cases hkind : m.stream.current.kind = kind
  · by_cases hend : kind = .endOfInput
    · subst hend
      rw [expect_end_of_kind hkind]
      exact ⟨.refl m, hm _ (m.stream.look_mem 0)⟩
    · rw [expect_of_kind hkind hend]
      exact ends_advance hm
  · rw [expect_of_ne hkind]
    exact ⟨.refl m, .inl (σ.syntactic rfl)⟩

/-- Runs of a reader that takes steps on tokens of the scope. -/
theorem Parallel.run (h : Parallel σ x y Q) (m : State)
    (hm : ∀ t ∈ m.stream.tokens, σ.token t) : Ends σ Q m (x m) := by
  induction h generalizing m with
  | pure h => exact ⟨.refl m, h⟩
  | @bind _ _ _ R x _ f _ _ _ ihx ihf =>
    have hx := ihx m hm
    change Ends σ R m (EStateM.bind x f m)
    unfold EStateM.bind
    cases hrun : x m with
    | ok a n =>
      rw [hrun] at hx
      exact (ihf a hx.2 n (hx.1.tokens ▸ hm)).of_onward hx.1
    | error e n =>
      rw [hrun] at hx
      cases e <;> exact hx
  | get _ ih => exact ih m m m hm
  | current => exact ⟨.refl m, hm _ (m.stream.look_mem 0)⟩
  | next => exact ⟨.refl m, hm _ (m.stream.look_mem 1)⟩
  | advance => exact ends_advance hm
  | expect kind => exact ends_expect kind hm
  | take kind =>
    unfold Parsing.take Stream.take
    split
    · exact ⟨onward_step m, trivial⟩
    · exact ⟨.refl m, trivial⟩
  | cover a b =>
    unfold Parsing.cover
    split
    · exact ⟨.refl m, trivial⟩
    · exact .refl m
  | typeOf? name => exact ⟨.refl m, trivial⟩
  | declare name type => exact ⟨⟨rfl, Nat.le_refl _⟩, trivial⟩
  | reject span h => exact ⟨.refl m, .inl h⟩
  | noFuelLeft => exact .refl m
  | noFuelRight _ ih => exact ih m hm

/-! ## Two runs side by side -/

/-- The state in which a run ended. -/
def endOf : EStateM.Result Failure State α → State
  | .ok _ n => n
  | .error _ n => n

theorem Ends.onward {m : State} {r : EStateM.Result Failure State α} (h : Ends σ Q m r) :
    Onward m (endOf r) := by
  cases r with
  | ok a n => exact h.1
  | error e n =>
    cases e with
    | problem p => exact h.1
    | fault f => exact h

/-- The states differ at most in tokens beyond the place `k`. -/
structure Shared (k : Nat) (m n : State) : Prop where
  tokens : ∀ i ≤ k, m.stream.tokens[i]? = n.stream.tokens[i]?
  cursor : m.stream.cursor = n.stream.cursor
  declared : m.declared = n.declared

namespace Shared

variable {k : Nat} {m n : State}

theorem refl (k : Nat) (m : State) : Shared k m m :=
  ⟨fun _ _ => rfl, rfl, rfl⟩

theorem step (h : Shared k m n) :
    Shared k { m with stream := m.stream.step } { n with stream := n.stream.step } :=
  ⟨h.tokens, congrArg (· + 1) h.cursor, h.declared⟩

theorem size_le_iff (h : Shared k m n) {i : Nat} (hi : i ≤ k) :
    m.stream.tokens.size ≤ i ↔ n.stream.tokens.size ≤ i := by
  rw [← Array.getElem?_eq_none_iff, h.tokens i hi, Array.getElem?_eq_none_iff]

/-- A stream that ends before the place is the same as the other one. -/
theorem tokens_eq (h : Shared k m n) (hsize : m.stream.tokens.size ≤ k) :
    m.stream.tokens = n.stream.tokens := by
  have hsize' := (h.size_le_iff (Nat.le_refl k)).mp hsize
  apply Array.ext_getElem?
  intro i
  by_cases hi : i ≤ k
  · exact h.tokens i hi
  · rw [Array.getElem?_eq_none (by omega), Array.getElem?_eq_none (by omega)]

/-- The same token is seen up to the place, also where it is the last one again. -/
theorem look (h : Shared k m n) {i : Nat} (hi : m.stream.cursor + i ≤ k) :
    m.stream.look i = n.stream.look i := by
  unfold Stream.look
  rw [h.tokens _ hi, ← h.cursor]
  cases hget : n.stream.tokens[m.stream.cursor + i]? with
  | some t => rfl
  | none =>
    rw [← h.tokens _ hi, Array.getElem?_eq_none_iff] at hget
    have htokens := h.tokens_eq (Nat.le_trans hget hi)
    simp only [Option.getD_none, Stream.last, htokens]

end Shared

/-- Both runs end in the same way, in states that differ at most beyond the place `k`, unless one of
them has run out of fuel. -/
inductive SameRun (k : Nat) :
    EStateM.Result Failure State α → EStateM.Result Failure State α → Prop
  | ok {a : α} {m n : State} (h : Shared k m n) : SameRun k (.ok a m) (.ok a n)
  | error {e : Failure} {m n : State} (h : Shared k m n) : SameRun k (.error e m) (.error e n)
  | noFuelLeft {m : State} {r : EStateM.Result Failure State α} :
    SameRun k (.error (.fault .outOfFuel) m) r
  | noFuelRight {n : State} {r : EStateM.Result Failure State α} :
    SameRun k r (.error (.fault .outOfFuel) n)

theorem sameRun_advance {k : Nat} {m n : State} (h : Shared k m n) (hk : m.stream.cursor < k) :
    SameRun k (advance m) (advance n) := by
  have hcurrent : m.stream.current = n.stream.current := h.look (Nat.le_of_lt hk)
  have hend := h.size_le_iff (Nat.le_of_lt hk)
  rw [h.cursor] at hend
  unfold advance pass Stream.advance
  simp only [hcurrent, h.cursor, hend]
  by_cases hc : n.stream.current.kind = .endOfInput ∨ n.stream.tokens.size ≤ n.stream.cursor
  · rw [if_pos hc, if_pos hc]
    exact .error h
  · rw [if_neg hc, if_neg hc]
    exact .ok h.step

theorem sameRun_expect {k : Nat} {m n : State} (kind : Kind) (h : Shared k m n)
    (hk : m.stream.cursor < k) : SameRun k (expect kind m) (expect kind n) := by
  have hcurrent : m.stream.current = n.stream.current := h.look (Nat.le_of_lt hk)
  by_cases hkind : m.stream.current.kind = kind
  · by_cases hend : kind = .endOfInput
    · subst hend
      rw [expect_end_of_kind hkind, expect_end_of_kind (hcurrent ▸ hkind), hcurrent]
      exact .ok h
    · rw [expect_of_kind hkind hend, expect_of_kind (hcurrent ▸ hkind) hend]
      exact sameRun_advance h hk
  · rw [expect_of_ne hkind, expect_of_ne (hcurrent ▸ hkind), hcurrent]
    exact .error h

theorem sameRun_take {k : Nat} {m n : State} (kind : Kind) (h : Shared k m n)
    (hk : m.stream.cursor < k) : SameRun k (take kind m) (take kind n) := by
  have hcurrent : m.stream.current = n.stream.current := h.look (Nat.le_of_lt hk)
  unfold take Stream.take
  rw [hcurrent]
  by_cases hkind : n.stream.current.kind = kind
  · rw [if_pos hkind, if_pos hkind]
    exact .ok h.step
  · rw [if_neg hkind, if_neg hkind]
    exact .ok h

/-- From states that differ at most beyond a place, parallel readers run alike as long as the first
one stays before that place. -/
theorem Parallel.sameRun (h : Parallel σ x y Q) {k : Nat} {m n : State}
    (hm : ∀ t ∈ m.stream.tokens, σ.token t) (hs : Shared k m n)
    (hk : (endOf (x m)).stream.cursor < k) : SameRun k (x m) (y n) := by
  -- The cursor has not gone back, so the run was before the place from its start on.
  have hbefore : m.stream.cursor < k := Nat.lt_of_le_of_lt (h.run m hm).onward.le hk
  induction h generalizing m n with
  | pure h => exact .ok hs
  | @bind _ _ _ R x y f g hx hf ihx ihf =>
    have hends := hx.run m hm
    change (endOf (EStateM.bind x f m)).stream.cursor < k at hk
    change SameRun k (EStateM.bind x f m) (EStateM.bind y g n)
    unfold EStateM.bind at hk ⊢
    cases hrun : x m with
    | error e m' =>
      rw [hrun] at hk
      have hsame := ihx hm hs (by rw [hrun]; exact hk) hbefore
      rw [hrun] at hsame
      generalize y n = r at hsame
      cases hsame with
      | error h => exact .error h
      | noFuelLeft => exact .noFuelLeft
      | noFuelRight => exact .noFuelRight
    | ok a m' =>
      rw [hrun] at hk hends
      -- The second reader does not go back either, so the first one stayed before the place.
      have htokens : ∀ t ∈ m'.stream.tokens, σ.token t := hends.1.tokens ▸ hm
      have hle := ((hf a hends.2).run m' htokens).onward.le
      have hbefore' : m'.stream.cursor < k := Nat.lt_of_le_of_lt hle hk
      have hsame := ihx hm hs (by rw [hrun]; exact hbefore') hbefore
      rw [hrun] at hsame
      generalize y n = r at hsame
      cases hsame with
      | ok h => exact ihf a hends.2 htokens h hk hbefore'
      | noFuelRight => exact .noFuelRight
  | get _ ih => exact ih m n hm hs hk hbefore
  | current =>
    have hlook := hs.look (i := 0) (Nat.le_of_lt hbefore)
    change SameRun k (.ok (m.stream.look 0) m) (.ok (n.stream.look 0) n)
    rw [hlook]
    exact .ok hs
  | next =>
    have hlook := hs.look (i := 1) hbefore
    change SameRun k (.ok (m.stream.look 1) m) (.ok (n.stream.look 1) n)
    rw [hlook]
    exact .ok hs
  | advance => exact sameRun_advance hs hbefore
  | expect kind => exact sameRun_expect kind hs hbefore
  | take kind => exact sameRun_take kind hs hbefore
  | cover a b =>
    unfold Parsing.cover
    cases a.cover b with
    | ok span => exact .ok hs
    | error fault => exact .error hs
  | typeOf? name =>
    change SameRun k (.ok (m.declared.lookup name) m) (.ok (n.declared.lookup name) n)
    rw [hs.declared]
    exact .ok hs
  | declare name type =>
    exact .ok ⟨hs.tokens, hs.cursor, congrArg ((name, type) :: ·) hs.declared⟩
  | reject span h => exact .error hs
  | noFuelLeft => exact .noFuelLeft
  | noFuelRight => exact .noFuelRight

end Parsing

end Bukvar
