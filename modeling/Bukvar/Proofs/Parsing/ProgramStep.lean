import Bukvar.Parsing.Statement
import Bukvar.Proofs.Grammar.Program
import Bukvar.Proofs.Parsing.Step

/-!
# The readers of statements, step by step

What the readers of statements do at their first token, and how a mapped parser runs.

* `declaration_of_kind`: the word that announces a declaration names a type.
* `statementWithin_succ`: a statement by its first token.
-/

namespace Bukvar.Parsing

open Token (Kind Stream)

theorem pure_eq {α : Type} (a : α) (m : State) : (pure a : Parser α) m = .ok a m := rfl

theorem map_of_ok {α β : Type} {x : Parser α} {f : α → β} {a : α} {m m' : State}
    (h : x m = .ok a m') : (f <$> x) m = .ok (f a) m' := by
  change EStateM.map f x m = _
  unfold EStateM.map
  rw [h]

theorem map_eq_ok {α β : Type} {x : Parser α} {f : α → β} {b : β} {m m' : State}
    (h : (f <$> x) m = .ok b m') :
    ∃ a, x m = .ok a m' ∧ b = f a := by
  change EStateM.map f x m = _ at h
  unfold EStateM.map at h
  cases hx : x m with
  | ok a n =>
    rw [hx] at h
    cases h
    exact ⟨a, rfl, rfl⟩
  | error e n =>
    rw [hx] at h
    cases h

theorem expect_end_eq_ok {t : Token} {m m' : State} (h : expect .endOfInput m = .ok t m') :
    m.stream.current.kind = .endOfInput ∧ m' = m := by
  obtain ⟨hstep, hdeclared⟩ := pass_eq_ok_iff.mp h
  unfold Stream.expect at hstep
  split at hstep
  next => cases hstep
  next hkind =>
    rw [if_pos rfl] at hstep
    obtain ⟨stream, declared⟩ := m
    obtain ⟨stream', declared'⟩ := m'
    cases hstep
    cases hdeclared
    exact ⟨Classical.not_not.mp hkind, rfl⟩

/-- Behind a name, the reader of loops looks for just those words that the grammar names. -/
theorem continuesCount_eq (k : Kind) :
    Grammar.continuesCount k = (k = .times || k.isArithmetic) := by
  cases k with
  | operator op => cases op <;> rfl
  | _ => rfl

/-- A declaration of a type that is known beforehand. -/
def declarationOf (type : VarType) : Parser Stmt := do
  let _ ← advance
  declarator type

/-- At the word of a type a declaration is one of that type: the token that is converted is the
one that was seen. -/
theorem declaration_of_kind {type : VarType} {m : State}
    (h : m.stream.current.kind = .typeWord type) : declaration m = declarationOf type m := by
  change EStateM.bind _ _ m = EStateM.bind _ _ m
  unfold EStateM.bind
  cases hrun : advance m with
  | error e n => rfl
  | ok t n =>
    obtain ⟨-, rfl, -⟩ := advance_eq_ok_iff.mp hrun
    have hconverted : converted Kind.toVarType m.stream.current = pure type := by
      rw [converted, h]
      rfl
    dsimp only
    rw [hconverted]
    rfl

/-- A statement by its first token. -/
theorem statementWithin_succ (fuel : Nat) :
    statementWithin (fuel + 1) = (do
      let token ← current
      match token.kind with
      | .typeWord type => declarationOf type
      | .name => assignment
      | .ifWord => conditional (blockWithin fuel) (armsWithin fuel)
      | .loopBegin => loopFirst (blockWithin fuel) (roundsWithin fuel)
      | .whileWord => conditionFirst (blockWithin fuel)
      | .writeWord => writing
      | .readWord => reading
      | .returnWord => returning
      | actual => reject token.span (.notAStatement actual)) := by
  funext m
  rw [statementWithin, bind_of_ok (current_eq m), bind_of_ok (current_eq m)]
  cases h : m.stream.current.kind with
  | typeWord type => exact declaration_of_kind h
  | _ => rfl

theorem statementWithin_of_kind {fuel : Nat} {m : State} {kind : Kind}
    (h : m.stream.current.kind = kind) :
    statementWithin (fuel + 1) m =
      (match kind with
        | .typeWord type => declarationOf type
        | .name => assignment
        | .ifWord => conditional (blockWithin fuel) (armsWithin fuel)
        | .loopBegin => loopFirst (blockWithin fuel) (roundsWithin fuel)
        | .whileWord => conditionFirst (blockWithin fuel)
        | .writeWord => writing
        | .readWord => reading
        | .returnWord => returning
        | actual => reject m.stream.current.span (.notAStatement actual)) m := by
  subst h
  rw [statementWithin_succ]
  exact bind_of_ok (current_eq m)

theorem roundsWithin_of_ne {fuel : Nat} {opener : Token} {m : State}
    (hwhile : m.stream.current.kind ≠ .whileWord) (hloop : m.stream.current.kind ≠ .loopEnd) :
    roundsWithin (fuel + 1) opener m = (do
      if m.stream.current.kind.endsBlock then
        reject opener.span (.unterminated opener.kind .loopEnd)
      let stmt ← statementWithin fuel
      let (rest, last) ← roundsWithin fuel opener
      return (stmt :: rest, last)) m := by
  rw [roundsWithin, bind_of_ok (current_eq m)]
  cases hk : m.stream.current.kind with
  | whileWord => exact absurd hk hwhile
  | loopEnd => exact absurd hk hloop
  | _ => rfl

end Bukvar.Parsing
