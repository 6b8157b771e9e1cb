import Bukvar.Proofs.Diagnostic.Blame
import Bukvar.Proofs.Parsing.Termination
import Bukvar.Proofs.Parsing.Watch

/-!
# Blocks left open

A reader of a block is handed the word that opened the block, and blames it when another word than
the one it waits for ends the block. That word is the topmost of the stack that the tokens behind the
reader give: `Ready` holds wherever a statement can start, with the stack that belongs there, each
reader keeps it or takes its own block off, and where a reader stops at a problem the stack explains
the problem (`Explained`). The same induction shows that a target of reading which is not known was
not announced.

* `watched_readers`: statements, blocks, arms and rounds.
* `explained_of_source`: the problems of sources.
* `openBlock_blamed`: a problem with a block blames the innermost open one.
-/

namespace Bukvar

open Token (Buffer Kind Stream)
open Diagnostic (Problem)

/-! ## Problems of statements -/

/-- The word that opens a block and the word that closes it. -/
def Token.Kind.ClosedBy (opener closer : Kind) : Prop :=
  opener = .ifWord ∧ closer = .endIf ∨ opener = .loopBegin ∧ closer = .loopEnd

/-- The tokens behind the state explain the problem. One with a block concerns the innermost open
block, and one with a target concerns the last token, with no announcement before it. -/
def Explained (p : Located Problem) (n : Parsing.State) : Prop :=
  match p.value with
  | .unterminated opener expected =>
    ∃ top outer, openBlocks n.stream.behind = top :: outer ∧ p.span = top.span ∧
      opener = top.kind ∧ top.kind.ClosedBy expected ∧ n.stream.cursor < n.stream.tokens.size ∧
      n.stream.current.kind.endsBlock = true ∧ n.stream.current.kind ≠ expected
  | .loopWithoutCondition =>
    ∃ top outer, openBlocks n.stream.behind = top :: outer ∧ p.span = top.span ∧
      top.kind = .loopBegin ∧ n.stream.cursor < n.stream.tokens.size ∧
      n.stream.current.kind = .loopEnd
  | .undeclared name =>
    ∃ front word id, n.stream.behind = front ++ [word, id] ∧
      n.stream.cursor = front.length + 2 ∧ word.kind = .readWord ∧ id.kind = .name ∧
      id.text = name ∧ id.span = p.span ∧ ¬ Announces name front
  | _ => True

namespace Parsing

variable {m n : State} {blocks : List Token}

theorem silent_explained : Silent Explained := by
  rintro ⟨span, problem⟩ n h
  cases problem <;> trivial

/-- A statement can start, and the declared variables are the known ones. -/
def Ready (blocks : List Token) (m : State) : Prop :=
  Watched blocks m.declared m.stream

theorem ready_expression {α : Type} {f : Expr → Parser α} {R : α → State → Prop}
    (h : Ready blocks m) (hf : ∀ e n, Ready blocks n → Meets (f e) n R Explained) :
    Meets (expression >>= f) m R Explained := by
  refine meets_bind (meets_expression silent_explained) ?_
  intro e n hinline
  refine hf e n ?_
  rw [Ready, hinline.declared]
  exact Watched.inline h hinline

/-- A token that concerns neither blocks nor variables. -/
theorem ready_expect {α : Type} {kind : Kind} (hplain : kind.isPlain = true) {f : Token → Parser α}
    {R : α → State → Prop} (h : Ready blocks m)
    (hf : ∀ t n, Ready blocks n → Meets (f t) n R Explained) :
    Meets (expect kind >>= f) m R Explained := by
  refine meets_expect silent_explained ?_ ?_
  · rintro rfl
    cases hplain
  · intro _ hkind
    exact hf _ _ (Watched.pass h (hkind ▸ hplain))

theorem ready_advance {α : Type} {f : Token → Parser α} {R : α → State → Prop}
    (h : Ready blocks m) (hplain : m.stream.current.kind.isPlain = true)
    (hf : ∀ t n, Ready blocks n → Meets (f t) n R Explained) :
    Meets (advance >>= f) m R Explained :=
  meets_advance silent_explained fun _ _ => hf _ _ (Watched.pass h hplain)

theorem ready_declaration {type : VarType} (h : Ready blocks m)
    (htype : m.stream.current.kind = .typeWord type) :
    Meets (declarationOf type) m (fun _ n => Ready blocks n) Explained := by
  unfold declarationOf declarator
  refine meets_advance silent_explained ?_
  intro _ _
  refine meets_ident silent_explained ?_
  intro _ hname
  -- The variable is announced here and declared only behind its first value.
  have hwatched := Watched.announce h htype hname
  have hclose (init : Option Expr) (n : State) (hdeclared : n.declared = m.declared)
      (hn : Watched blocks ((m.stream.step.current.text, type) :: m.declared) n.stream) :
      Meets (do
        let _ ← expect .semicolon
        declare m.stream.step.current.text type
        return Stmt.declare type ⟨m.stream.step.current.text, m.stream.step.current.span⟩ init) n
        (fun _ n => Ready blocks n) Explained := by
    refine meets_expect silent_explained (by decide) ?_
    intro _ hkind
    have hpassed := hn.pass (by rw [hkind]; rfl)
    rw [← hdeclared] at hpassed
    exact hpassed
  refine meets_take ?_ ?_
  · intro hassign
    have hpassed := hwatched.pass (by rw [hassign]; rfl)
    refine meets_bind (meets_map (R := fun _ n => n.declared = m.declared ∧
      Watched blocks ((m.stream.step.current.text, type) :: m.declared) n.stream)
      ((meets_expression silent_explained).mono ?_)) ?_
    · intro _ n hinline
      exact ⟨hinline.declared, hpassed.inline hinline⟩
    · rintro init n ⟨hdeclared, hn⟩
      exact hclose init n hdeclared hn
  · intro _
    exact hclose none _ rfl hwatched

theorem ready_assignment (h : Ready blocks m) :
    Meets assignment m (fun _ n => Ready blocks n) Explained := by
  unfold assignment
  refine meets_of_ok (next_eq m) ?_
  dsimp only
  split
  · exact meets_reject_bind trivial
  · refine ready_expression h ?_
    intro e n h
    exact ready_expect rfl h fun _ _ h => meets_pure h

theorem ready_writing (h : Ready blocks m) (hkind : m.stream.current.kind = .writeWord) :
    Meets writing m (fun _ n => Ready blocks n) Explained := by
  unfold writing
  refine ready_advance h (by rw [hkind]; rfl) ?_
  intro _ n h
  refine ready_expression h ?_
  intro e n h
  exact ready_expect rfl h fun _ _ h => meets_pure h

theorem ready_reading (h : Ready blocks m) (hkind : m.stream.current.kind = .readWord) :
    Meets reading m (fun _ n => Ready blocks n) Explained := by
  unfold reading
  refine meets_advance silent_explained ?_
  intro _ _
  have hpassed : Watched blocks m.declared m.stream.step := Watched.pass h (by rw [hkind]; rfl)
  refine meets_ident silent_explained ?_
  intro _ hname
  refine meets_of_ok (a := m.declared.lookup m.stream.step.current.text) rfl ?_
  split
  next hnone =>
    refine meets_reject ?_
    refine ⟨m.stream.behind, m.stream.current, m.stream.step.current, ?_, ?_, hkind, hname, rfl,
      rfl, ?_⟩
    · have hbehind := (Watched.step_step h (by simp [hkind]) (by simp [hname])).2
      rwa [List.append_assoc] at hbehind
    · rw [Stream.length_behind h.inside.lt]
      rfl
    · intro hannounced
      have hknown := h.known _ hannounced
      rw [hnone] at hknown
      cases hknown
  next type _ =>
    refine ready_expect (m := ⟨m.stream.step.step, m.declared⟩) rfl ?_ fun _ _ h => meets_pure h
    exact hpassed.pass (by rw [hname]; rfl)

theorem ready_returning (h : Ready blocks m) (hkind : m.stream.current.kind = .returnWord) :
    Meets returning m (fun _ n => Ready blocks n) Explained := by
  unfold returning
  refine ready_advance h (by rw [hkind]; rfl) ?_
  intro _ n h
  refine meets_take ?_ ?_
  · intro hsemicolon
    exact meets_pure (Watched.pass h (by rw [hsemicolon]; rfl))
  · intro _
    refine ready_expression h ?_
    intro e n h
    exact ready_expect rfl h fun _ _ h => meets_pure h

/-! ## Blocks, arms and rounds -/

/-- A reader of blocks that leaves the blocks around open, and its own. -/
def ReadyBlock (block : BlockParser) : Prop :=
  ∀ opener closer stops blocks m, opener.kind.ClosedBy closer → closer ∈ stops →
    Ready (opener :: blocks) m →
    Meets (block opener closer stops) m (fun _ n => Ready (opener :: blocks) n) Explained

/-- A reader of arms that leaves the conditional open. -/
def ReadyArms (arms : Token → Parser Arms) : Prop :=
  ∀ opener blocks m, opener.kind = .ifWord → Ready (opener :: blocks) m →
    Meets (arms opener) m (fun _ n => Ready (opener :: blocks) n) Explained

/-- A reader of rounds, which closes the loop. -/
def ReadyRounds (rounds : Token → Parser (List Stmt × Expr)) : Prop :=
  ∀ opener blocks m, opener.kind = .loopBegin → Ready (opener :: blocks) m →
    Meets (rounds opener) m (fun _ n => Ready blocks n) Explained

theorem ready_condition {α : Type} {f : Expr → Parser α} {R : α → State → Prop}
    (h : Ready blocks m) (hf : ∀ e n, Ready blocks n → Meets (f e) n R Explained) :
    Meets (condition >>= f) m R Explained := by
  unfold condition
  simp only [bind_assoc]
  refine ready_expression h ?_
  intro e n h
  exact ready_expect rfl h fun _ n h => hf e n h

theorem ready_conditional {block : BlockParser} {arms : Token → Parser Arms}
    (hblock : ReadyBlock block) (harms : ReadyArms arms) (h : Ready blocks m)
    (hkind : m.stream.current.kind = .ifWord) :
    Meets (conditional block arms) m (fun _ n => Ready blocks n) Explained := by
  unfold conditional
  refine meets_advance silent_explained ?_
  intro _ _
  have hopened : Ready (m.stream.current :: blocks) { m with stream := m.stream.step } :=
    Watched.opens h (.inl hkind)
  refine ready_condition hopened ?_
  intro first n h
  refine meets_bind (hblock _ _ _ blocks n (.inl ⟨hkind, rfl⟩) (by decide) h) ?_
  intro body n h
  refine meets_bind (harms _ blocks n hkind h) ?_
  intro rest n h
  refine meets_expect silent_explained (by decide) ?_
  intro _ hend
  exact meets_pure (Watched.closes h (.inl hend))

theorem ready_loopBody {α : Type} {block : BlockParser} (hblock : ReadyBlock block) {opener : Token}
    (hopener : opener.kind = .loopBegin) {f : List Stmt → Parser α} {R : α → State → Prop}
    (h : Ready (opener :: blocks) m) (hf : ∀ b n, Ready blocks n → Meets (f b) n R Explained) :
    Meets (loopBody block opener >>= f) m R Explained := by
  unfold loopBody
  simp only [bind_assoc]
  refine meets_bind (hblock _ _ _ blocks m (.inr ⟨hopener, rfl⟩) (by decide) h) ?_
  intro body n h
  refine meets_expect silent_explained (by decide) ?_
  intro _ hend
  exact hf body _ (Watched.closes h (.inr hend))

theorem ready_afterCondition {block : BlockParser} (hblock : ReadyBlock block) (e : Expr)
    (h : Ready blocks m) :
    Meets (afterCondition block e) m (fun _ n => Ready blocks n) Explained := by
  unfold afterCondition
  refine meets_expect silent_explained (by decide) ?_
  intro _ hkind
  refine ready_loopBody hblock hkind (Watched.opens h (.inr hkind)) ?_
  intro body n h
  exact meets_pure h

theorem ready_conditionFirst {block : BlockParser} (hblock : ReadyBlock block)
    (h : Ready blocks m) :
    Meets (conditionFirst block) m (fun _ n => Ready blocks n) Explained := by
  unfold conditionFirst
  refine ready_expect rfl h ?_
  intro _ n h
  refine ready_expression h ?_
  intro e n h
  exact ready_afterCondition hblock e h

theorem ready_loopFirst {block : BlockParser} {rounds : Token → Parser (List Stmt × Expr)}
    (hblock : ReadyBlock block) (hrounds : ReadyRounds rounds) (h : Ready blocks m) :
    Meets (loopFirst block rounds) m (fun _ n => Ready blocks n) Explained := by
  unfold loopFirst
  refine meets_expect silent_explained (by decide) ?_
  intro _ hkind
  have hopened : Ready (m.stream.current :: blocks) { m with stream := m.stream.step } :=
    Watched.opens h (.inr hkind)
  refine meets_take ?_ ?_
  · intro hwhile
    refine ready_expression (Watched.pass hopened (by rw [hwhile]; rfl)) ?_
    intro e n h
    refine ready_loopBody hblock hkind h ?_
    intro body n h
    exact meets_pure h
  · intro _
    obtain ⟨b, hcount⟩ := exists_countAhead { m with stream := m.stream.step }
    refine meets_of_ok hcount ?_
    dsimp only
    split
    · refine ready_expression hopened ?_
      intro e n h
      refine ready_expect rfl h ?_
      intro _ n h
      refine ready_loopBody hblock hkind h ?_
      intro body n h
      exact meets_pure h
    · refine meets_bind (hrounds _ blocks _ hkind hopened) ?_
      intro pair n h
      exact meets_pure h

/-- With the fuel the readers of statements keep track of the open blocks. -/
structure ReadyWithin (fuel : Nat) : Prop where
  statement : ∀ blocks m, Ready blocks m →
    Meets (statementWithin fuel) m (fun _ n => Ready blocks n) Explained
  block : ReadyBlock (blockWithin fuel)
  arms : ReadyArms (armsWithin fuel)
  rounds : ReadyRounds (roundsWithin fuel)

variable {fuel : Nat}

theorem ready_statementWithin (hr : ReadyWithin fuel) (blocks : List Token) (m : State)
    (h : Ready blocks m) :
    Meets (statementWithin (fuel + 1)) m (fun _ n => Ready blocks n) Explained := by
  rw [statementWithin_succ]
  refine meets_of_ok (current_eq m) ?_
  split
  next type htype => exact ready_declaration h htype
  next => exact ready_assignment h
  next hkind => exact ready_conditional hr.block hr.arms h hkind
  next => exact ready_loopFirst hr.block hr.rounds h
  next => exact ready_conditionFirst hr.block h
  next hkind => exact ready_writing h hkind
  next hkind => exact ready_reading h hkind
  next hkind => exact ready_returning h hkind
  next => exact meets_reject trivial

/-- A word that closes another block, or none, leaves the innermost block open. -/
theorem explained_unterminated {opener : Token} {closer : Kind} (h : Ready (opener :: blocks) m)
    (hclosed : opener.kind.ClosedBy closer) (hends : m.stream.current.kind.endsBlock = true)
    (hne : m.stream.current.kind ≠ closer) :
    Explained ⟨opener.span, .unterminated opener.kind closer⟩ m :=
  ⟨opener, blocks, h.blocks, rfl, rfl, hclosed, h.inside.lt, hends, hne⟩

theorem ready_blockWithin (hr : ReadyWithin fuel) : ReadyBlock (blockWithin (fuel + 1)) := by
  intro opener closer stops blocks m hclosed hstops h
  rw [blockWithin]
  refine meets_of_ok (current_eq m) ?_
  dsimp only
  split
  · exact meets_pure h
  next hstop =>
    split
    next hends =>
      refine meets_reject_bind (explained_unterminated h hclosed hends ?_)
      rintro rfl
      exact hstop hstops
    next =>
      refine meets_bind (hr.statement _ m h) ?_
      intro stmt n h
      refine meets_bind (hr.block opener closer stops blocks n hclosed hstops h) ?_
      intro rest n h
      exact meets_pure h

theorem ready_armsWithin (hr : ReadyWithin fuel) : ReadyArms (armsWithin (fuel + 1)) := by
  intro opener blocks m hopener h
  rw [armsWithin]
  refine meets_take ?_ fun _ => meets_pure h
  intro helse
  refine meets_take ?_ ?_
  · intro hif
    refine ready_condition (Watched.elseIf h helse hif) ?_
    intro also n h
    refine meets_bind (hr.block opener _ _ blocks n (.inl ⟨hopener, rfl⟩) (by decide) h) ?_
    intro body n h
    refine meets_bind (hr.arms opener blocks n hopener h) ?_
    intro rest n h
    exact meets_pure h
  · intro hif
    refine meets_bind (hr.block opener _ _ blocks _ (.inl ⟨hopener, rfl⟩) (by decide)
      (Watched.otherwise h helse hif)) ?_
    intro body n h
    exact meets_pure h

theorem ready_roundsWithin (hr : ReadyWithin fuel) : ReadyRounds (roundsWithin (fuel + 1)) := by
  intro opener blocks m hopener h
  rw [roundsWithin]
  refine meets_of_ok (current_eq m) ?_
  split
  next hwhile =>
    refine ready_advance h (by rw [hwhile]; rfl) ?_
    intro _ n h
    refine ready_expression h ?_
    intro e n h
    refine meets_take ?_ ?_
    · intro hend
      exact meets_pure (Watched.closes h (.inr hend))
    · intro _
      refine meets_of_ok (current_eq n) ?_
      dsimp only
      split
      · exact meets_reject_bind trivial
      · refine meets_bind (ready_afterCondition hr.block e h) ?_
        intro stmt n h
        refine meets_bind (hr.rounds opener blocks n hopener h) ?_
        intro pair n h
        exact meets_pure h
  next hend => exact meets_reject ⟨opener, blocks, h.blocks, rfl, hopener, h.inside.lt, hend⟩
  next hwhile hend =>
    dsimp only
    split
    next hends =>
      exact meets_reject_bind (explained_unterminated h (.inr ⟨hopener, rfl⟩) hends hend)
    next =>
      refine meets_bind (hr.statement _ m h) ?_
      intro stmt n h
      refine meets_bind (hr.rounds opener blocks n hopener h) ?_
      intro pair n h
      exact meets_pure h

/-- All readers of statements, by induction on their fuel. -/
theorem watched_readers (fuel : Nat) : ReadyWithin fuel := by
  induction fuel with
  | zero =>
    exact ⟨fun _ _ _ => trivial, fun _ _ _ _ _ _ _ _ => trivial, fun _ _ _ _ _ => trivial,
      fun _ _ _ _ _ => trivial⟩
  | succ fuel ih =>
    exact ⟨ready_statementWithin ih, ready_blockWithin ih, ready_armsWithin ih,
      ready_roundsWithin ih⟩

/-! ## Whole programs -/

theorem ready_statementsWithin (fuel : Nat) (m : State) (h : Ready blocks m) :
    Meets (statementsWithin fuel) m (fun _ n => Ready blocks n) Explained := by
  induction fuel generalizing m with
  | zero => trivial
  | succ fuel ih =>
    rw [statementsWithin]
    refine meets_of_ok (current_eq m) ?_
    dsimp only
    split
    · exact meets_pure h
    · refine meets_bind (meets_of_ok rfl ((watched_readers _).statement blocks m h)) ?_
      intro stmt n h
      refine meets_bind (ih n h) ?_
      intro rest n h
      exact meets_pure h

theorem explained_program {p : Located Problem} (h : Ready blocks m)
    (hrun : program m = .error (.problem p) n) : Explained p n := by
  have hmeets : Meets program m (fun _ n => Ready blocks n) Explained := by
    unfold program
    refine ready_expect rfl h ?_
    intro _ n h
    refine meets_of_ok rfl ?_
    refine meets_bind (ready_statementsWithin _ n h) ?_
    intro body n h
    refine ready_expect rfl h ?_
    intro _ n h
    refine meets_expect_end silent_explained ?_
    intro _
    exact meets_pure h
  exact hmeets.of_problem hrun

/-- At the first token of a source no block is open and nothing is announced. -/
theorem ready_ofTokens {s : Stream} {ts : List Token} {length : Nat}
    (htokens : s.tokens = (Buffer.ofTokens ts length).tokens) (hcursor : s.cursor = 0) :
    Ready [] ⟨s, []⟩ := by
  have hbehind : s.behind = [] := by
    rw [Stream.behind, hcursor, List.take_zero]
  have hlast : s.last.kind = .endOfInput := by
    have hget := s.getElem?_last
    rw [htokens] at hget
    simp only [Buffer.ofTokens, List.size_toArray, List.length_append, List.length_singleton,
      Nat.add_sub_cancel, List.getElem?_toArray, List.getElem?_concat_length,
      Option.some.injEq] at hget
    rw [← hget]
    rfl
  refine ⟨⟨hcursor ▸ s.nonempty, hlast⟩, ?_, ?_, ?_, ?_⟩
  · rw [hbehind]
    rfl
  · rw [hbehind]
    intro hafter
    cases hafter
  · rw [hbehind]
    intro word hword
    cases hword
  · rw [hbehind]
    rintro name ⟨front, word, id, back, heq, -⟩
    exact absurd heq (by simp)

/-- What the tokens of a source say about the problem at which its parser stopped. -/
theorem explained_of_source {source : String} {buffer : Buffer} {p : Located Problem}
    (hbuffer : Buffer.ofSource source = .ok buffer)
    (hfail : (parseProgram buffer).outcome = .error (.problem p)) :
    ∃ n : State, (parseProgram buffer).buffer = n.stream.buffer ∧
      n.stream.tokens = buffer.tokens ∧ Explained p n := by
  obtain ⟨ts, -, rfl⟩ := Token.exists_tokens hbuffer
  have hpos : 0 < (Buffer.ofTokens ts source.utf8ByteSize).tokens.size := by simp [Buffer.ofTokens]
  obtain ⟨s, hs, htokens, hcursor⟩ := Buffer.exists_stream hpos
  have honward := ((parallel_program (σ := .any)).run ⟨s, []⟩ fun _ _ => trivial).onward
  unfold parseProgram at hfail ⊢
  cases hrun : program ⟨s, []⟩ with
  | ok a n =>
    rw [parse_of_ok hs hrun] at hfail
    cases hfail
  | error e n =>
    rw [hrun] at honward
    rw [parse_of_error hs hrun] at hfail ⊢
    cases hfail
    exact ⟨n, rfl, honward.tokens.trans htokens,
      explained_program (ready_ofTokens htokens hcursor) hrun⟩

/-- A source is refused for an open block only at a word that closes blocks, and then the block is
the innermost one that the tokens before this word leave open. -/
theorem openBlock_blamed (source : String) (buffer : Buffer)
    (hbuffer : Buffer.ofSource source = .ok buffer) (p : Located Problem)
    (hfail : (parseProgram buffer).outcome = .error (.problem p)) :
    (∀ opener expected, p.value = .unterminated opener expected →
        ∃ top outer found,
          openBlocks (buffer.tokens.toList.take (parseProgram buffer).buffer.cursor) =
            top :: outer ∧
          p.span = top.span ∧ opener = top.kind ∧ top.kind.ClosedBy expected ∧
          buffer.tokens[(parseProgram buffer).buffer.cursor]? = some found ∧
          found.kind ∈ [.endIf, .elseWord, .loopEnd, .programEnd, .endOfInput] ∧
          found.kind ≠ expected) ∧
      (p.value = .loopWithoutCondition →
        ∃ top outer found,
          openBlocks (buffer.tokens.toList.take (parseProgram buffer).buffer.cursor) =
            top :: outer ∧
          p.span = top.span ∧ top.kind = .loopBegin ∧
          buffer.tokens[(parseProgram buffer).buffer.cursor]? = some found ∧
          found.kind = .loopEnd) := by
  obtain ⟨n, hleft, htokens, hexplained⟩ := explained_of_source hbuffer hfail
  rw [hleft, ← htokens]
  obtain ⟨span, value⟩ := p
  constructor
  · rintro opener expected rfl
    obtain ⟨top, outer, hopen, hspan, hopener, hclosed, hlt, hends, hne⟩ := hexplained
    refine ⟨top, outer, n.stream.current, hopen, hspan, hopener, hclosed,
      Stream.getElem?_current hlt, ?_, hne⟩
    cases hkind : n.stream.current.kind <;> first | decide | (rw [hkind] at hends; cases hends)
  · rintro rfl
    obtain ⟨top, outer, hopen, hspan, hkind, hlt, hend⟩ := hexplained
    exact ⟨top, outer, n.stream.current, hopen, hspan, hkind, Stream.getElem?_current hlt, hend⟩

/-- A conditional with two arms, in the second of which a loop is left open. The word of the second
arm opens nothing. -/
theorem openBlock_blamed_loop :
    ∃ buffer p outer, Buffer.ofSource "начало если x то иначе если y то нц 2 раз конец" = .ok buffer ∧
      (parseProgram buffer).outcome = .error (.problem p) ∧
      p = ⟨⟨56, 4, by decide⟩, .unterminated .loopBegin .loopEnd⟩ ∧
      (openBlocks (buffer.tokens.toList.take (parseProgram buffer).buffer.cursor)).map Token.span =
        p.span :: outer := by
  have hrun : (Buffer.ofSource "начало если x то иначе если y то нц 2 раз конец").toOption.bind
      (fun buffer => (parseProgram buffer).problem?) =
        some ⟨⟨56, 4, by decide⟩, .unterminated .loopBegin .loopEnd⟩ := by
    decide +kernel
  obtain ⟨buffer, hbuffer, hproblem⟩ := Token.exists_of_ofSource hrun
  have hfail := Run.outcome_of_problem? hproblem
  obtain ⟨top, outer, found, hopen, hspan, -⟩ :=
    (openBlock_blamed _ buffer hbuffer _ hfail).1 .loopBegin .loopEnd rfl
  refine ⟨buffer, _, outer.map Token.span, hbuffer, hfail, rfl, ?_⟩
  rw [hopen, List.map_cons, hspan]

end Parsing

end Bukvar
