import Bukvar.Proofs.Grammar.Program
import Bukvar.Proofs.Grammar.Uniqueness

/-!
# The grammar of programs is unambiguous

Where a phrase ends can be seen from the symbols: a statement ends with a symbol of its own, and
a block ends before the first symbol that starts no statement. Behind the word that opens a
loop, `loopForm` tells the three loops apart. A condition behind the statements of a loop ends
the loop when the word that closes it follows.

* `Phrase.unique`: symbols are derived as a phrase in one way at most.
* `eq_of_programWord_eq`: so are the symbols of a program.
-/

namespace Bukvar

open Token (Kind)

/-- Whether a statement can start with a token of the kind. -/
def Token.Kind.startsStatement : Kind → Bool
  | .typeWord _ | .name | .ifWord | .loopBegin | .whileWord | .writeWord | .readWord
  | .returnWord => true
  | _ => false

/-- Whether the token is the sign of an operator. -/
def Token.Kind.isOperator : Kind → Bool
  | .operator _ => true
  | _ => false

theorem Token.Kind.isOperator_of_startsStatement {k : Kind} (h : k.startsStatement = true) :
    k.isOperator = false := by
  cases k <;> first | rfl | cases h

theorem Token.Kind.ne_operator {k : Kind} (h : k.isOperator = false) (op : Operator) :
    k ≠ .operator op := by
  rintro rfl
  cases h

namespace Grammar

/-! ## First symbols -/

theorem Target.exists_head (t : Target) :
    ∃ x w, t.word = x :: w ∧ (x.kind.hasText = true ∨ x = .mark .leftParen) := by
  cases t with
  | name text => exact ⟨⟨.name, text⟩, [], rfl, .inl rfl⟩
  | group inner => exact ⟨.mark .leftParen, _, rfl, .inr rfl⟩

theorem Derivation.exists_head {l : Level} (d : Derivation l) :
    ∃ x w, d.word = x :: w ∧ (x.kind.hasText = true ∨ x = .mark .leftParen) := by
  induction d with
  | assign target value _ =>
    obtain ⟨x, w, hw, hx⟩ := target.exists_head
    exact ⟨x, _, by rw [word, hw, List.cons_append], hx⟩
  | compare lhs op _ rhs ih _ | add lhs op _ rhs ih _ | multiply lhs op _ rhs ih _ =>
    obtain ⟨x, w, hw, hx⟩ := ih
    exact ⟨x, _, by rw [word, hw, List.cons_append], hx⟩
  | ofComparison _ ih | ofSum _ ih | ofProduct _ ih | ofPrimary _ ih => exact ih
  | name text | integer text | double text | string text => exact ⟨_, [], rfl, .inl rfl⟩
  | group inner _ => exact ⟨.mark .leftParen, _, rfl, .inr rfl⟩

theorem Phrase.exists_head (p : Phrase .statement) :
    ∃ x w, p.word = x :: w ∧ x.kind.startsStatement = true := by
  cases p <;> exact ⟨_, _, rfl, rfl⟩

theorem stops_cons {x : Symbol} (h : x.kind.isOperator = false) (w : List Symbol) :
    Stops (x :: w) := by
  intro s rest hs
  obtain ⟨rfl, -⟩ := List.cons.inj hs
  rintro ⟨op, rfl⟩
  cases h

theorem stops_of_startsStatement {x : Symbol} (h : x.kind.startsStatement = true)
    (w : List Symbol) : Stops (x :: w) :=
  stops_cons (Kind.isOperator_of_startsStatement h) w

theorem stops_block (b : Phrase .block) {k : Kind} (hk : k.isOperator = false)
    (r : List Symbol) : Stops (b.word ++ .mark k :: r) := by
  cases b with
  | nil => exact stops_cons hk r
  | cons first rest =>
    obtain ⟨x, w, hw, hx⟩ := first.exists_head
    rw [Phrase.word, hw]
    exact stops_of_startsStatement hx _

/-- An expression and a symbol behind it that does not continue it. -/
theorem clause_unique {c c' : Clause} {k k' : Kind} {r r' : List Symbol}
    (h : c.word ++ .mark k :: r = c'.word ++ .mark k' :: r') (hk : k.isOperator = false)
    (hk' : k'.isOperator = false) : c = c' ∧ k = k' ∧ r = r' := by
  obtain ⟨hc, hr⟩ := c.eq_of_append_eq c' h (stops_cons hk r) (stops_cons hk' r')
  cases hr
  exact ⟨hc, rfl, rfl⟩

theorem clause_ne_semicolon (c : Clause) {u v : List Symbol} :
    c.word ++ u ≠ .mark .semicolon :: v := by
  obtain ⟨x, w, hw, hx⟩ := c.exists_head
  rw [hw]
  intro h
  obtain ⟨rfl, -⟩ := List.cons.inj h
  rcases hx with hx | hx <;> cases hx

theorem value_unique {v v' : Option Clause} {r r' : List Symbol}
    (h : valueWord v ++ .mark .semicolon :: r = valueWord v' ++ .mark .semicolon :: r') :
    v = v' ∧ r = r' := by
  cases v with
  | none =>
    cases v' with
    | none => exact ⟨rfl, List.tail_eq_of_cons_eq h⟩
    | some c' => exact absurd h.symm (clause_ne_semicolon c')
  | some c =>
    cases v' with
    | none => exact absurd h (clause_ne_semicolon c)
    | some c' =>
      obtain ⟨rfl, -, rfl⟩ := @clause_unique c c' _ _ _ _ h rfl rfl
      exact ⟨rfl, rfl⟩

theorem init_unique {v v' : Option Clause} {r r' : List Symbol}
    (h : initWord v ++ .mark .semicolon :: r = initWord v' ++ .mark .semicolon :: r') :
    v = v' ∧ r = r' := by
  cases v with
  | none =>
    cases v' with
    | none => exact ⟨rfl, List.tail_eq_of_cons_eq h⟩
    | some c' => cases h
  | some c =>
    cases v' with
    | none => cases h
    | some c' =>
      obtain ⟨rfl, -, rfl⟩ := @clause_unique c c' _ _ _ _ (List.tail_eq_of_cons_eq h) rfl rfl
      exact ⟨rfl, rfl⟩

/-! ## The forms of loops -/

/-- The loop that goes on with the symbols behind the word that opens it: with a condition, and
otherwise whether with a count. -/
def loopForm (w : List Symbol) : Option Bool :=
  if w.head? = some (.mark .whileWord) then none else some (startsCount w)

theorem startsCount_append {u : List Symbol} (hu : u ≠ []) (x : Symbol) (v : List Symbol) :
    startsCount (u ++ x :: v) = startsCount (u ++ [x]) := by
  match u, hu with
  | [y], _ => rfl
  | y :: z :: rest, _ => rfl

theorem startsCount_statement (p : Phrase .statement) (r : List Symbol) :
    startsCount (p.word ++ r) = false := by
  cases p <;> simp [startsCount, Phrase.word, Symbol.mark, continuesCount]

theorem loopForm_counted {c : Clause} {r : List Symbol}
    (h : startsCount (c.word ++ [.mark .times]) = true) :
    loopForm (c.word ++ .mark .times :: r) = some true := by
  obtain ⟨x, w, hw, hx⟩ := c.exists_head
  have hne : (c.word ++ .mark .times :: r).head? ≠ some (.mark .whileWord) := by
    rw [hw]
    intro he
    obtain rfl := Option.some.inj he
    rcases hx with hx | hx <;> cases hx
  rw [loopForm, if_neg hne, startsCount_append (by simp [hw]), h]

theorem loopForm_block {b : Phrase .block} {r : List Symbol} (hne : b.word ≠ [])
    (hhead : b.word.head? ≠ some (.mark .whileWord)) : loopForm (b.word ++ r) = some false := by
  cases b with
  | nil => exact absurd rfl hne
  | cons first rest =>
    obtain ⟨x, w, hw, hx⟩ := first.exists_head
    rw [Phrase.word, hw] at hhead
    have hhead' : (first.word ++ (rest.word ++ r)).head? ≠ some (.mark .whileWord) := by
      rw [hw]
      exact hhead
    rw [Phrase.word, List.append_assoc, loopForm, if_neg hhead', startsCount_statement]

/-! ## Unambiguity -/

/-- No statement starts with the first symbol. -/
def EndsBlock (w : List Symbol) : Prop :=
  ∀ x rest, w = x :: rest → x.kind.startsStatement = false

theorem endsBlock_mark {k : Kind} (hk : k.startsStatement = false) (r : List Symbol) :
    EndsBlock (.mark k :: r) := by
  intro x rest hx
  obtain ⟨rfl, -⟩ := List.cons.inj hx
  exact hk

theorem endsBlock_arms (a : Phrase .arms) (r : List Symbol) :
    EndsBlock (a.word ++ .mark .endIf :: r) := by
  cases a <;> exact endsBlock_mark rfl _

/-- The symbols of the phrase, with what may follow them, are those of no other phrase. For a
block this is said twice, as a condition of a loop may stand behind it. -/
def Unique : (c : Category) → Phrase c → Prop
  | .statement, p => ∀ (p' : Phrase .statement) (r r' : List Symbol), p.Valid → p'.Valid →
      p.word ++ r = p'.word ++ r' → p = p' ∧ r = r'
  | .block, b =>
    (∀ (b' : Phrase .block) (r r' : List Symbol), b.Valid → b'.Valid → EndsBlock r →
      EndsBlock r' → b.word ++ r = b'.word ++ r' → b = b' ∧ r = r') ∧
    ∀ (b' : Phrase .block) (c c' : Clause) (r r' : List Symbol), b.Valid → b'.Valid →
      roundsWord b.word c ++ r = roundsWord b'.word c' ++ r' → b = b' ∧ c = c' ∧ r = r'
  | .arms, a => ∀ (a' : Phrase .arms) (r r' : List Symbol), a.Valid → a'.Valid →
      a.word ++ .mark .endIf :: r = a'.word ++ .mark .endIf :: r' → a = a' ∧ r = r'

/-- A condition with the word behind it that closes a loop starts no statement. -/
theorem rounds_ne_statement {c : Clause} {r r' : List Symbol} {p : Phrase .statement} :
    .mark .whileWord :: (c.word ++ .mark .loopEnd :: r) ≠ p.word ++ r' := by
  intro h
  cases p with
  | whileBefore condition body =>
    simp only [Phrase.word, List.cons_append, List.cons.injEq, List.append_assoc] at h
    obtain ⟨-, hk, -⟩ := @clause_unique c condition _ _ _ _ h.2 rfl rfl
    cases hk
  | _ => simp [Phrase.word, Symbol.mark] at h

theorem unique_nil : Unique .block .nil := by
  constructor
  · intro b' r r' _ _ hr _ h
    cases b' with
    | nil => exact ⟨rfl, h⟩
    | cons first rest =>
      obtain ⟨x, w, hw, hx⟩ := first.exists_head
      rw [Phrase.word_cons, hw] at h
      rw [hr x _ h] at hx
      cases hx
  · intro b' c c' r r' _ _ h
    cases b' with
    | nil =>
      simp only [roundsWord, Phrase.word_nil, List.nil_append, List.cons_append, List.cons.injEq,
        List.append_assoc] at h
      obtain ⟨rfl, -, rfl⟩ := clause_unique h.2 rfl rfl
      exact ⟨rfl, rfl, rfl⟩
    | cons first rest =>
      simp only [roundsWord, Phrase.word_nil, Phrase.word_cons, List.nil_append, List.cons_append,
        List.append_assoc] at h
      exact absurd h rounds_ne_statement

theorem unique_cons {first : Phrase .statement} {rest : Phrase .block}
    (hfirst : Unique .statement first) (hrest : Unique .block rest) :
    Unique .block (.cons first rest) := by
  constructor
  · intro b' r r' hv hv' hr hr' h
    cases b' with
    | nil =>
      obtain ⟨x, w, hw, hx⟩ := first.exists_head
      rw [Phrase.word_cons, hw] at h
      rw [hr' x _ h.symm] at hx
      cases hx
    | cons first' rest' =>
      simp only [Phrase.word_cons, List.append_assoc] at h
      obtain ⟨rfl, htail⟩ := hfirst first' _ _ hv.1 hv'.1 h
      obtain ⟨rfl, rfl⟩ := hrest.1 rest' r r' hv.2 hv'.2 hr hr' htail
      exact ⟨rfl, rfl⟩
  · intro b' c c' r r' hv hv' h
    cases b' with
    | nil =>
      simp only [roundsWord, Phrase.word_nil, Phrase.word_cons, List.nil_append, List.cons_append,
        List.append_assoc] at h
      exact absurd h.symm rounds_ne_statement
    | cons first' rest' =>
      simp only [roundsWord, Phrase.word_cons, List.append_assoc] at h
      obtain ⟨rfl, htail⟩ := hfirst first' _ _ hv.1 hv'.1 h
      obtain ⟨rfl, rfl, rfl⟩ :=
        hrest.2 rest' c c' r r' hv.2 hv'.2 (by simpa [roundsWord] using htail)
      exact ⟨rfl, rfl, rfl⟩

theorem unique_branch {condition : Clause} {body : Phrase .block} {arms : Phrase .arms}
    (hbody : Unique .block body) (harms : Unique .arms arms) :
    Unique .statement (.branch condition body arms) := by
  intro p' r r' hv hv' h
  cases p' with
  | branch condition' body' arms' =>
    simp only [Phrase.word, List.cons_append, List.cons.injEq, List.append_assoc,
      List.nil_append, true_and] at h
    obtain ⟨rfl, -, hblocks⟩ := clause_unique h rfl rfl
    obtain ⟨rfl, hrest⟩ := hbody.1 body' _ _ hv.1 hv'.1 (endsBlock_arms _ _) (endsBlock_arms _ _)
      hblocks
    obtain ⟨rfl, rfl⟩ := harms arms' r r' hv.2 hv'.2 hrest
    exact ⟨rfl, rfl⟩
  | _ => simp [Phrase.word, Symbol.mark] at h

theorem unique_whileBefore {condition : Clause} {body : Phrase .block}
    (hbody : Unique .block body) : Unique .statement (.whileBefore condition body) := by
  intro p' r r' hv hv' h
  cases p' with
  | whileBefore condition' body' =>
    simp only [Phrase.word, List.cons_append, List.cons.injEq, List.append_assoc,
      List.nil_append, true_and] at h
    obtain ⟨rfl, -, hblocks⟩ := clause_unique h rfl rfl
    obtain ⟨rfl, hrest⟩ := hbody.1 body' _ _ hv hv' (endsBlock_mark rfl _) (endsBlock_mark rfl _)
      hblocks
    exact ⟨rfl, List.tail_eq_of_cons_eq hrest⟩
  | _ => simp [Phrase.word, Symbol.mark] at h

theorem unique_whileInside {condition : Clause} {body : Phrase .block}
    (hbody : Unique .block body) : Unique .statement (.whileInside condition body) := by
  intro p' r r' hv hv' h
  cases p' with
  | whileInside condition' body' =>
    simp only [Phrase.word, List.cons_append, List.cons.injEq, List.append_assoc,
      List.nil_append, true_and] at h
    obtain ⟨rfl, hblocks⟩ :=
      condition.eq_of_append_eq condition' h (@stops_block body .loopEnd rfl r)
        (@stops_block body' .loopEnd rfl r')
    obtain ⟨rfl, hrest⟩ := hbody.1 body' _ _ hv hv' (endsBlock_mark rfl _) (endsBlock_mark rfl _)
      hblocks
    exact ⟨rfl, List.tail_eq_of_cons_eq hrest⟩
  | counted count' body' =>
    have hform := congrArg loopForm (List.tail_eq_of_cons_eq h)
    simp only [List.append_eq, List.append_assoc, List.cons_append] at hform
    rw [loopForm_counted hv'.1] at hform
    cases hform
  | whileAfter body' condition' =>
    have hform := congrArg loopForm (List.tail_eq_of_cons_eq h)
    simp only [List.append_eq, roundsWord, List.append_assoc, List.cons_append] at hform
    rw [loopForm_block hv'.1 hv'.2.1] at hform
    cases hform
  | _ => simp [Phrase.word, Symbol.mark] at h

theorem unique_counted {count : Clause} {body : Phrase .block}
    (hbody : Unique .block body) : Unique .statement (.counted count body) := by
  intro p' r r' hv hv' h
  cases p' with
  | counted count' body' =>
    simp only [Phrase.word, List.cons_append, List.cons.injEq, List.append_assoc,
      List.nil_append, true_and] at h
    obtain ⟨rfl, -, hblocks⟩ := clause_unique h rfl rfl
    obtain ⟨rfl, hrest⟩ := hbody.1 body' _ _ hv.2 hv'.2 (endsBlock_mark rfl _)
      (endsBlock_mark rfl _) hblocks
    exact ⟨rfl, List.tail_eq_of_cons_eq hrest⟩
  | whileInside condition' body' =>
    have hform := congrArg loopForm (List.tail_eq_of_cons_eq h)
    simp only [List.append_eq, List.append_assoc, List.cons_append] at hform
    rw [loopForm_counted hv.1] at hform
    cases hform
  | whileAfter body' condition' =>
    have hform := congrArg loopForm (List.tail_eq_of_cons_eq h)
    simp only [List.append_eq, roundsWord, List.append_assoc, List.cons_append] at hform
    rw [loopForm_counted hv.1, loopForm_block hv'.1 hv'.2.1] at hform
    cases hform
  | _ => simp [Phrase.word, Symbol.mark] at h

theorem unique_whileAfter {condition : Clause} {body : Phrase .block}
    (hbody : Unique .block body) : Unique .statement (.whileAfter body condition) := by
  intro p' r r' hv hv' h
  cases p' with
  | whileAfter body' condition' =>
    obtain ⟨rfl, rfl, rfl⟩ := hbody.2 body' condition condition' r r' hv.2.2 hv'.2.2
      (List.tail_eq_of_cons_eq h)
    exact ⟨rfl, rfl⟩
  | whileInside condition' body' =>
    have hform := congrArg loopForm (List.tail_eq_of_cons_eq h)
    simp only [List.append_eq, roundsWord, List.append_assoc, List.cons_append] at hform
    rw [loopForm_block hv.1 hv.2.1] at hform
    cases hform
  | counted count' body' =>
    have hform := congrArg loopForm (List.tail_eq_of_cons_eq h)
    simp only [List.append_eq, roundsWord, List.append_assoc, List.cons_append] at hform
    rw [loopForm_block hv.1 hv.2.1, loopForm_counted hv'.1] at hform
    cases hform
  | _ => simp [Phrase.word, Symbol.mark] at h

theorem block_ne_if {b : Phrase .block} {r w : List Symbol}
    (h : b.word.head? ≠ some (.mark .ifWord)) :
    b.word ++ .mark .endIf :: r ≠ .mark .ifWord :: w := by
  cases b with
  | nil => exact nofun
  | cons first rest =>
    obtain ⟨x, v, hv, -⟩ := first.exists_head
    rw [Phrase.word_cons, hv] at h ⊢
    intro he
    obtain ⟨rfl, -⟩ := List.cons.inj he
    exact h rfl

theorem unique_otherwise {body : Phrase .block} (hbody : Unique .block body) :
    Unique .arms (.otherwise body) := by
  intro a' r r' hv hv' h
  cases a' with
  | done => simp [Phrase.word, Symbol.mark] at h
  | otherwise body' =>
    obtain ⟨rfl, hrest⟩ := hbody.1 body' _ _ hv.2 hv'.2 (endsBlock_mark rfl _)
      (endsBlock_mark rfl _) (List.tail_eq_of_cons_eq h)
    exact ⟨rfl, List.tail_eq_of_cons_eq hrest⟩
  | elseIf condition' body' rest' =>
    exact absurd (List.tail_eq_of_cons_eq h) (block_ne_if hv.1)

theorem unique_elseIf {condition : Clause} {body : Phrase .block} {rest : Phrase .arms}
    (hbody : Unique .block body) (hrest : Unique .arms rest) :
    Unique .arms (.elseIf condition body rest) := by
  intro a' r r' hv hv' h
  cases a' with
  | done => simp [Phrase.word, Symbol.mark] at h
  | otherwise body' => exact absurd (List.tail_eq_of_cons_eq h).symm (block_ne_if hv'.1)
  | elseIf condition' body' rest' =>
    simp only [Phrase.word, List.cons_append, List.cons.injEq, List.append_assoc, true_and] at h
    obtain ⟨rfl, -, hblocks⟩ := clause_unique h rfl rfl
    obtain ⟨rfl, htail⟩ := hbody.1 body' _ _ hv.1 hv'.1 (endsBlock_arms _ _) (endsBlock_arms _ _)
      hblocks
    obtain ⟨rfl, rfl⟩ := hrest rest' r r' hv.2 hv'.2 htail
    exact ⟨rfl, rfl⟩

/-- Symbols are derived as a phrase in one way at most. -/
theorem Phrase.unique {c : Category} (p : Phrase c) : Unique c p := by
  induction p with
  | declare type name init =>
    intro p' r r' _ _ h
    cases p' with
    | declare type' name' init' =>
      simp only [word, Symbol.mark, List.cons_append, List.cons.injEq, Symbol.mk.injEq,
        Kind.typeWord.injEq, and_true, true_and, List.append_assoc, List.nil_append] at h
      obtain ⟨rfl, rfl, hinit⟩ := h
      obtain ⟨rfl, rfl⟩ := init_unique hinit
      exact ⟨rfl, rfl⟩
    | _ => simp [word, Symbol.mark] at h
  | assign name value =>
    intro p' r r' _ _ h
    cases p' with
    | assign name' value' =>
      simp only [word, List.cons_append, List.cons.injEq, Symbol.mk.injEq, true_and,
        List.append_assoc, List.nil_append] at h
      obtain ⟨rfl, hvalue⟩ := h
      obtain ⟨rfl, -, rfl⟩ := clause_unique hvalue rfl rfl
      exact ⟨rfl, rfl⟩
    | _ => simp [word, Symbol.mark] at h
  | branch condition body arms hbody harms => exact unique_branch hbody harms
  | whileInside condition body hbody => exact unique_whileInside hbody
  | whileBefore condition body hbody => exact unique_whileBefore hbody
  | counted count body hbody => exact unique_counted hbody
  | whileAfter body condition hbody => exact unique_whileAfter hbody
  | write value =>
    intro p' r r' _ _ h
    cases p' with
    | write value' =>
      simp only [word, List.cons_append, List.cons.injEq, true_and, List.append_assoc,
        List.nil_append] at h
      obtain ⟨rfl, -, rfl⟩ := clause_unique h rfl rfl
      exact ⟨rfl, rfl⟩
    | _ => simp [word, Symbol.mark] at h
  | read name =>
    intro p' r r' _ _ h
    cases p' with
    | read name' =>
      simp only [word, List.cons_append, List.cons.injEq, Symbol.mk.injEq, true_and,
        List.nil_append] at h
      obtain ⟨rfl, rfl⟩ := h
      exact ⟨rfl, rfl⟩
    | _ => simp [word, Symbol.mark] at h
  | giveBack value =>
    intro p' r r' _ _ h
    cases p' with
    | giveBack value' =>
      simp only [word, List.cons_append, List.cons.injEq, true_and, List.append_assoc,
        List.nil_append] at h
      obtain ⟨rfl, rfl⟩ := value_unique h
      exact ⟨rfl, rfl⟩
    | _ => simp [word, Symbol.mark] at h
  | nil => exact unique_nil
  | cons first rest hfirst hrest => exact unique_cons hfirst hrest
  | done =>
    intro a' r r' _ _ h
    cases a' with
    | done => exact ⟨rfl, List.tail_eq_of_cons_eq h⟩
    | _ => simp [word, Symbol.mark] at h
  | otherwise body hbody => exact unique_otherwise hbody
  | elseIf condition body rest hbody hrest => exact unique_elseIf hbody hrest

theorem eq_of_programWord_eq {b b' : Phrase .block} (hv : b.Valid) (hv' : b'.Valid)
    (h : programWord b = programWord b') : b = b' :=
  (b.unique.1 b' [.mark .programEnd] [.mark .programEnd] hv hv' (endsBlock_mark rfl _)
    (endsBlock_mark rfl _) (List.tail_eq_of_cons_eq h)).1

end Grammar

end Bukvar
