import Bukvar.Proofs.Grammar.Unambiguity
import Bukvar.Proofs.Parsing.Completeness
import Bukvar.Proofs.Parsing.ProgramStep

/-!
# Derived programs are read

A derived phrase is read as its tree, and behind it the declarations are known that it
mentions. The induction is over phrases; a block has two readers, of which one also looks for
the condition at the end of a loop.

* `readable`: every phrase is read.
* `statements_continue`: so is a block, whatever stands behind it.
* `program_complete`: so is every program.
-/

namespace Bukvar

open Token (Kind Stream)
open Grammar (Symbol symbol Derivation Clause Declarations Mention Phrase Category)

/-- The symbols lie ahead and can be read: the literals among them have values, and names that
are read are declared. -/
structure Ready (ds : Declarations) (s : Stream) (w : List Symbol) (ms : List Mention)
    (s' : Stream) : Prop where
  within : ∃ base, s.Within base w
  passes : Passes s w s'
  fits : ∀ x ∈ w, x.Fits
  covered : ds.Cover ms

namespace Ready

variable {ds : Declarations} {s s' : Stream} {w : List Symbol} {ms : List Mention}

theorem split {u v : List Symbol} {ns : List Mention} (h : Ready ds s (u ++ v) (ms ++ ns) s') :
    ∃ m, Ready ds s u ms m ∧ Ready (ds.after ms) m v ns s' := by
  obtain ⟨base, hwithin⟩ := h.within
  obtain ⟨m, hu, hv⟩ := h.passes.split
  obtain ⟨hms, hns⟩ := (Grammar.cover_append ds ms ns).mp h.covered
  refine ⟨m, ⟨⟨base, hwithin.left⟩, hu, ?_, hms⟩, ⟨⟨base, hwithin.right hu⟩, hv, ?_, hns⟩⟩
  · intro x hx
    exact h.fits x (List.mem_append_left v hx)
  · intro x hx
    exact h.fits x (List.mem_append_right u hx)

/-- What comes behind the last mention. -/
theorem split_last {u v : List Symbol} (h : Ready ds s (u ++ v) ms s') :
    ∃ m, Ready ds s u ms m ∧ Ready (ds.after ms) m v [] s' :=
  @split ds s s' ms u v [] (by rwa [List.append_nil])

theorem exists_ahead {x : Symbol} (h : Ready ds s (x :: w) ms s') :
    ∃ rest, s.ahead = s.current :: rest ∧ symbol s.current = x ∧ s.current.kind ≠ .endOfInput := by
  obtain ⟨t, rest, hahead, hx, -, hne, -⟩ := h.passes.uncons
  obtain rfl := Stream.current_of_ahead hahead
  exact ⟨rest, hahead, hx, hne⟩

theorem step {x : Symbol} (h : Ready ds s (x :: w) ms s') : Ready ds s.step w ms s' := by
  obtain ⟨base, hwithin⟩ := h.within
  obtain ⟨t, rest, hahead, -, -, -, hpasses⟩ := h.passes.uncons
  refine ⟨⟨base, hwithin.tail hahead⟩, hpasses, ?_, h.covered⟩
  intro y hy
  exact h.fits y (List.mem_cons_of_mem x hy)

theorem eq_mark {x : Symbol} (h : Ready ds s (x :: w) ms s') (hx : x.kind.hasText = false) :
    x = .mark x.kind := by
  obtain ⟨rest, -, rfl, -⟩ := h.exists_ahead
  exact Grammar.symbol_eq_mark hx

theorem kind_current {x : Symbol} (h : Ready ds s (x :: w) ms s') : s.current.kind = x.kind := by
  obtain ⟨rest, -, rfl, -⟩ := h.exists_ahead
  rfl

theorem next {x y : Symbol} (h : Ready ds s (x :: y :: w) ms s') : s.next.kind = y.kind := by
  obtain ⟨rest, hahead, -, -⟩ := h.exists_ahead
  obtain ⟨rest', hstep, hy, -⟩ := h.step.exists_ahead
  rw [Stream.ahead_step hahead] at hstep
  rw [hstep] at hahead
  rw [Stream.next_of_ahead hahead, ← hy]
  rfl

theorem eq_of_nil (h : Ready ds s [] ms s') : s' = s :=
  h.passes.eq_skip

theorem advance {x : Symbol} (h : Ready ds s (x :: w) ms s') :
    Parsing.advance ⟨s, ds⟩ = .ok s.current ⟨s.step, ds⟩ := by
  obtain ⟨rest, hahead, -, hne⟩ := h.exists_ahead
  exact Parsing.run_advance hahead hne

theorem expect {k : Kind} (h : Ready ds s (.mark k :: w) ms s') :
    Parsing.expect k ⟨s, ds⟩ = .ok s.current ⟨s.step, ds⟩ := by
  obtain ⟨rest, hahead, -, hne⟩ := h.exists_ahead
  have hkind : s.current.kind = k := h.kind_current
  exact Parsing.run_expect hahead hkind (hkind ▸ hne)

theorem take {k : Kind} (h : Ready ds s (.mark k :: w) ms s') :
    Parsing.take k ⟨s, ds⟩ = .ok true ⟨s.step, ds⟩ := by
  obtain ⟨rest, hahead, -, -⟩ := h.exists_ahead
  exact Parsing.run_take hahead h.kind_current

theorem take_other {x : Symbol} (h : Ready ds s (x :: w) ms s') (k : Kind) (hk : x.kind ≠ k) :
    Parsing.take k ⟨s, ds⟩ = .ok false ⟨s, ds⟩ := by
  obtain ⟨rest, hahead, rfl, -⟩ := h.exists_ahead
  exact Parsing.run_take_other hahead hk

theorem ident {name : String} (h : Ready ds s (⟨.name, name⟩ :: w) ms s') :
    Parsing.ident ⟨s, ds⟩ = .ok ⟨name, s.current.span⟩ ⟨s.step, ds⟩ := by
  obtain ⟨rest, hahead, hx, -⟩ := h.exists_ahead
  have hkind : s.current.kind = .name := congrArg Symbol.kind hx
  have htext : s.current.text = name := by
    rw [← Grammar.text_symbol (t := s.current) (by rw [hkind]; rfl), hx]
  unfold Parsing.ident
  rw [Parsing.bind_of_ok (Parsing.run_expect hahead hkind nofun), htext]
  rfl

/-- An expression is read where no operator follows it. -/
theorem expression {c : Clause} {x : Symbol} (h : Ready ds s (c.word ++ x :: w) ms s')
    (hx : x.kind.isOperator = false) :
    ∃ e m, Parsing.expression ⟨s, ds⟩ = .ok e ⟨m, ds⟩ ∧ e.bare = c.tree ∧
      Ready ds m (x :: w) ms s' := by
  obtain ⟨m, hc, hrest⟩ := @split ds s s' [] c.word (x :: w) ms h
  obtain ⟨base, hwithin⟩ := hc.within
  obtain ⟨e, he, hbare⟩ := @Parsing.expression_complete base ds c s m hwithin hc.passes hc.fits (by
    intro op
    rw [hrest.kind_current]
    exact Kind.ne_operator hx op)
  exact ⟨e, m, he, hbare, hrest⟩

end Ready

namespace Parsing

/-- With enough fuel, the phrase is read where its symbols lie ahead. -/
def Readable : (c : Category) → Phrase c → Prop
  | .statement, p => ∀ (ds : Declarations) (fuel : Nat) (s s' : Stream),
      Ready ds s p.word p.mentions s' → p.Valid → 2 * p.word.length ≤ fuel →
      ∃ stmt, statementWithin fuel ⟨s, ds⟩ = .ok stmt ⟨s', ds.after p.mentions⟩ ∧
        stmt.bare = p.tree ds
  | .block, b =>
    (∀ (ds : Declarations) (fuel : Nat) (opener : Token) (closer : Kind) (stops : List Kind)
        (s s' : Stream), Ready ds s b.word b.mentions s' → b.Valid →
        2 * b.word.length < fuel → s'.current.kind ∈ stops → (∀ k ∈ stops, k.endsBlock = true) →
        ∃ body, blockWithin fuel opener closer stops ⟨s, ds⟩ =
          .ok body ⟨s', ds.after b.mentions⟩ ∧ bareBlock body = b.tree ds) ∧
    ∀ (ds : Declarations) (fuel : Nat) (opener : Token) (c : Clause) (s s' : Stream),
      Ready ds s (Grammar.roundsWord b.word c) b.mentions s' → b.Valid →
      2 * b.word.length < fuel →
      ∃ body last, roundsWithin fuel opener ⟨s, ds⟩ =
        .ok (body, last) ⟨s', ds.after b.mentions⟩ ∧ bareBlock body = b.tree ds ∧
          last.bare = c.tree
  | .arms, a => ∀ (ds : Declarations) (fuel : Nat) (opener : Token) (s s' : Stream),
      Ready ds s a.word a.mentions s' → a.Valid → 2 * a.word.length < fuel →
      s'.current.kind = .endIf →
      ∃ arms, armsWithin fuel opener ⟨s, ds⟩ = .ok arms ⟨s', ds.after a.mentions⟩ ∧
        arms.bare = a.tree ds

/-! ## Statements without blocks -/

variable {ds : Declarations} {s s' : Stream} {w : List Symbol} {ms : List Mention}

theorem run_declaration {type : VarType} {name : String} {init : Option Clause}
    (h : Ready ds s (Phrase.declare type name init).word [] s') :
    ∃ stmt, declarationOf type ⟨s, ds⟩ = .ok stmt ⟨s', (name, type) :: ds⟩ ∧
      stmt.bare = .declare type ⟨name, .empty 0⟩ (init.map Derivation.tree) := by
  unfold declarationOf declarator
  rw [bind_of_ok h.advance, bind_of_ok h.step.ident]
  have hrest := h.step.step
  cases init with
  | none =>
    rw [bind_of_ok (hrest.take_other (.operator .assign) nofun), if_neg (by decide),
      bind_of_ok (pure_eq none _)]
    dsimp only
    rw [bind_of_ok hrest.expect]
    obtain rfl := hrest.step.eq_of_nil
    exact ⟨_, rfl, rfl⟩
  | some value =>
    obtain ⟨e, m, he, hbare, hend⟩ := hrest.step.expression rfl
    rw [bind_of_ok hrest.take, if_pos rfl, bind_of_ok (map_of_ok he)]
    dsimp only
    rw [bind_of_ok hend.expect]
    obtain rfl := hend.step.eq_of_nil
    refine ⟨_, rfl, ?_⟩
    rw [Stmt.bare, Option.map_some, hbare]
    rfl

theorem run_assignment {name : String} {value : Clause}
    (h : Ready ds s (Phrase.assign name value).word [] s') :
    ∃ stmt, assignment ⟨s, ds⟩ = .ok stmt ⟨s', ds⟩ ∧
      stmt.bare = .assign (Derivation.assign (.name name) value).tree := by
  have hnext : next ⟨s, ds⟩ = .ok s.next ⟨s, ds⟩ := rfl
  have hkind : s.next.kind = .operator .assign := h.next
  obtain ⟨e, m, he, hbare, hend⟩ :=
    @Ready.expression ds s s' [] [] (.assign (.name name) value) (.mark .semicolon) h rfl
  unfold assignment
  rw [bind_of_ok hnext, if_neg (not_not_intro hkind)]
  dsimp only
  rw [bind_of_ok he, bind_of_ok hend.expect]
  obtain rfl := hend.step.eq_of_nil
  refine ⟨_, rfl, ?_⟩
  rw [Stmt.bare, hbare]

theorem run_writing {value : Clause} (h : Ready ds s (Phrase.write value).word [] s') :
    ∃ stmt, writing ⟨s, ds⟩ = .ok stmt ⟨s', ds⟩ ∧ stmt.bare = .write value.tree := by
  obtain ⟨e, m, he, hbare, hend⟩ := h.step.expression rfl
  unfold writing
  rw [bind_of_ok h.advance, bind_of_ok he, bind_of_ok hend.expect]
  obtain rfl := hend.step.eq_of_nil
  refine ⟨_, rfl, ?_⟩
  rw [Stmt.bare, hbare]

theorem run_reading {name : String} {type : VarType}
    (h : Ready ds s (Phrase.read name).word [] s') (htype : ds.lookup name = some type) :
    ∃ stmt, reading ⟨s, ds⟩ = .ok stmt ⟨s', ds⟩ ∧ stmt.bare = .read ⟨name, .empty 0⟩ type := by
  have hknown : typeOf? name ⟨s.step.step, ds⟩ = .ok (some type) ⟨s.step.step, ds⟩ := by
    rw [← htype]
    rfl
  unfold reading
  rw [bind_of_ok h.advance, bind_of_ok h.step.ident, bind_of_ok hknown]
  simp only
  rw [bind_of_ok h.step.step.expect]
  obtain rfl := h.step.step.step.eq_of_nil
  exact ⟨_, rfl, rfl⟩

theorem run_returning {value : Option Clause}
    (h : Ready ds s (Phrase.giveBack value).word [] s') :
    ∃ stmt, returning ⟨s, ds⟩ = .ok stmt ⟨s', ds⟩ ∧
      stmt.bare = .giveBack (value.map Derivation.tree) := by
  have hrest := h.step
  unfold returning
  rw [bind_of_ok h.advance]
  cases value with
  | none =>
    rw [bind_of_ok hrest.take, if_pos rfl]
    obtain rfl := hrest.step.eq_of_nil
    exact ⟨_, rfl, rfl⟩
  | some value =>
    obtain ⟨x, w, hw, hx⟩ := value.exists_head
    obtain ⟨e, m, he, hbare, hend⟩ := hrest.expression rfl
    have hne : x.kind ≠ .semicolon := by
      rintro hk
      rcases hx with hx | rfl
      · rw [hk] at hx
        cases hx
      · cases hk
    have hhead : Ready ds s.step (x :: (w ++ [.mark .semicolon])) [] s' := by
      rw [Phrase.word, Grammar.valueWord, hw] at h
      exact h.step
    rw [bind_of_ok (hhead.take_other .semicolon hne), if_neg (by decide),
      bind_of_ok he, bind_of_ok hend.expect]
    obtain rfl := hend.step.eq_of_nil
    refine ⟨_, rfl, ?_⟩
    rw [Stmt.bare, Option.map_some, hbare]
    rfl

/-! ## Blocks -/

theorem run_take_ne {k : Kind} (h : s.current.kind ≠ k) :
    take k ⟨s, ds⟩ = .ok false ⟨s, ds⟩ := by
  simp [take, Stream.take, h]

theorem endsBlock_of_startsStatement {k : Kind} (h : k.startsStatement = true) :
    k.endsBlock = false := by
  cases k <;> simp_all [Kind.startsStatement, Kind.endsBlock]

theorem readBlock_nil {fuel : Nat} {opener : Token} {closer : Kind} {stops : List Kind}
    (h : s.current.kind ∈ stops) :
    blockWithin (fuel + 1) opener closer stops ⟨s, ds⟩ = .ok [] ⟨s, ds⟩ := by
  rw [blockWithin, bind_of_ok (current_eq _)]
  dsimp only
  rw [if_pos h]
  rfl

theorem readBlock_cons {fuel : Nat} {opener : Token} {closer : Kind} {stops : List Kind}
    {m m' : State} {stmt : Stmt} {body : List Stmt} (hkind : s.current.kind.startsStatement = true)
    (hstops : ∀ k ∈ stops, k.endsBlock = true)
    (hstmt : statementWithin fuel ⟨s, ds⟩ = .ok stmt m)
    (hbody : blockWithin fuel opener closer stops m = .ok body m') :
    blockWithin (fuel + 1) opener closer stops ⟨s, ds⟩ = .ok (stmt :: body) m' := by
  have hends := endsBlock_of_startsStatement hkind
  have hnot : s.current.kind ∉ stops := by
    intro hmem
    rw [hstops _ hmem] at hends
    cases hends
  rw [blockWithin, bind_of_ok (current_eq _)]
  dsimp only
  rw [if_neg hnot, if_neg (by simp [hends]), bind_of_ok hstmt, bind_of_ok hbody]
  rfl

theorem readRounds_nil {fuel : Nat} {opener : Token} {c : Clause}
    (h : Ready ds s (Grammar.roundsWord [] c) ms s') :
    ∃ last, roundsWithin (fuel + 1) opener ⟨s, ds⟩ = .ok ([], last) ⟨s', ds⟩ ∧
      last.bare = c.tree := by
  have hkind : s.current.kind = .whileWord := h.kind_current
  obtain ⟨e, m, he, hbare, hend⟩ := h.step.expression rfl
  refine ⟨e, ?_, hbare⟩
  rw [roundsWithin, bind_of_ok (current_eq _)]
  simp only [hkind]
  rw [bind_of_ok h.advance, bind_of_ok he, bind_of_ok hend.take, if_pos rfl]
  obtain rfl := hend.step.eq_of_nil
  rfl

/-- A statement that starts with a condition, in front of more rounds. -/
theorem readRounds_while {fuel : Nat} {opener : Token} {m m' : State} {stmt : Stmt}
    {body : List Stmt} {last : Expr} {w : List Symbol}
    (h : Ready ds s (.mark .whileWord :: w) ms s')
    (hstmt : statementWithin (fuel + 1) ⟨s, ds⟩ = .ok stmt m)
    (hrest : roundsWithin fuel opener m = .ok (body, last) m') :
    roundsWithin (fuel + 1) opener ⟨s, ds⟩ = .ok (stmt :: body, last) m' := by
  have hkind : s.current.kind = .whileWord := h.kind_current
  have hfirst : conditionFirst (blockWithin fuel) ⟨s, ds⟩ = .ok stmt m := by
    rw [← hstmt]
    exact (@statementWithin_of_kind fuel ⟨s, ds⟩ _ hkind).symm
  unfold conditionFirst at hfirst
  rw [bind_of_ok h.expect] at hfirst
  obtain ⟨e, ⟨n, ds'⟩, he, hafter⟩ := bind_eq_ok_iff.mp hfirst
  have hnext : n.current.kind = .loopBegin := by
    obtain ⟨t, n', hexpect, -⟩ := bind_eq_ok_iff.mp hafter
    exact ((expect_eq_ok_iff (by decide)).mp hexpect).1.1
  rw [roundsWithin, bind_of_ok (current_eq _)]
  simp only [hkind]
  rw [bind_of_ok h.advance, bind_of_ok he, bind_of_ok (run_take_ne (by simp [hnext])),
    if_neg (by decide), bind_of_ok (current_eq _), if_neg (not_not_intro hnext),
    bind_of_ok hafter, bind_of_ok hrest]
  rfl

/-- Another statement in front of more rounds. -/
theorem readRounds_other {fuel : Nat} {opener : Token} {m m' : State} {stmt : Stmt}
    {body : List Stmt} {last : Expr} (hkind : s.current.kind.startsStatement = true)
    (hwhile : s.current.kind ≠ .whileWord)
    (hstmt : statementWithin fuel ⟨s, ds⟩ = .ok stmt m)
    (hrest : roundsWithin fuel opener m = .ok (body, last) m') :
    roundsWithin (fuel + 1) opener ⟨s, ds⟩ = .ok (stmt :: body, last) m' := by
  have hends := endsBlock_of_startsStatement hkind
  have hloop : s.current.kind ≠ .loopEnd := by
    intro hk
    rw [hk] at hkind
    cases hkind
  rw [roundsWithin_of_ne hwhile hloop, if_neg (by simp [hends])]
  dsimp only
  rw [bind_of_ok hstmt, bind_of_ok hrest]
  rfl

theorem readable_nil : Readable .block .nil := by
  constructor
  · intro ds fuel opener closer stops s s' h _ hfuel hstop _
    obtain ⟨k, rfl⟩ : ∃ k, fuel = k + 1 := ⟨fuel - 1, by omega⟩
    obtain rfl := h.eq_of_nil
    exact ⟨[], readBlock_nil hstop, rfl⟩
  · intro ds fuel opener c s s' h _ hfuel
    obtain ⟨k, rfl⟩ : ∃ k, fuel = k + 1 := ⟨fuel - 1, by omega⟩
    obtain ⟨last, hrun, hbare⟩ := readRounds_nil h
    exact ⟨[], last, hrun, rfl, hbare⟩

theorem readable_cons {first : Phrase .statement} {rest : Phrase .block}
    (hfirst : Readable .statement first) (hrest : Readable .block rest) :
    Readable .block (.cons first rest) := by
  obtain ⟨x, w, hw, hx⟩ := first.exists_head
  have hpos : 0 < first.word.length := by simp [hw]
  constructor
  · intro ds fuel opener closer stops s s' h hv hfuel hstop hstops
    rw [Phrase.word_cons, List.length_append] at hfuel
    obtain ⟨k, rfl⟩ : ∃ k, fuel = k + 1 := ⟨fuel - 1, by omega⟩
    obtain ⟨m, hready, hready'⟩ := h.split
    obtain ⟨stmt, hstmt, hbare⟩ := hfirst ds k s m hready hv.1 (by omega)
    obtain ⟨body, hbody, hbares⟩ :=
      hrest.1 _ k opener closer stops m s' hready' hv.2 (by omega) hstop hstops
    have hkind : s.current.kind.startsStatement = true := by
      rw [hw] at hready
      rw [hready.kind_current, hx]
    refine ⟨stmt :: body, ?_, ?_⟩
    · rw [readBlock_cons hkind hstops hstmt hbody, Phrase.mentions, Grammar.after_append]
    · rw [bareBlock, hbare, hbares]
      rfl
  · intro ds fuel opener c s s' h hv hfuel
    rw [Phrase.word_cons, List.length_append] at hfuel
    obtain ⟨k, rfl⟩ : ∃ k, fuel = k + 1 := ⟨fuel - 1, by omega⟩
    rw [Phrase.word_cons, Grammar.roundsWord, List.append_assoc] at h
    obtain ⟨m, hready, hready'⟩ := h.split
    obtain ⟨body, last, hrounds, hbares, hlast⟩ :=
      hrest.2 _ k opener c m s' hready' hv.2 (by omega)
    rw [Phrase.mentions, Grammar.after_append]
    have hhead := hready
    rw [hw] at hhead
    by_cases hwhile : x.kind = .whileWord
    · obtain ⟨stmt, hstmt, hbare⟩ := hfirst ds (k + 1) s m hready hv.1 (by omega)
      have hmark := hhead.eq_mark (by rw [hwhile]; rfl)
      rw [hmark, hwhile] at hhead
      refine ⟨stmt :: body, last, readRounds_while hhead hstmt hrounds, ?_, hlast⟩
      rw [bareBlock, hbare, hbares]
      rfl
    · obtain ⟨stmt, hstmt, hbare⟩ := hfirst ds k s m hready hv.1 (by omega)
      have hkind := hhead.kind_current
      refine ⟨stmt :: body, last, readRounds_other (by rw [hkind, hx]) (by rwa [hkind]) hstmt
        hrounds, ?_, hlast⟩
      rw [bareBlock, hbare, hbares]
      rfl

/-! ## Conditionals -/

theorem run_condition {c : Clause} (h : Ready ds s (c.word ++ .mark .thenWord :: w) ms s') :
    ∃ e m, condition ⟨s, ds⟩ = .ok e ⟨m, ds⟩ ∧ e.bare = c.tree ∧ Ready ds m w ms s' := by
  obtain ⟨e, m, he, hbare, hend⟩ := h.expression rfl
  refine ⟨e, m.step, ?_, hbare, hend.step⟩
  unfold condition
  rw [bind_of_ok he, bind_of_ok hend.expect]
  rfl

theorem kind_of_arms {arms : Phrase .arms} {m : Stream} (h : Ready ds m arms.word ms s')
    (hend : s'.current.kind = .endIf) :
    m.current.kind ∈ [Kind.elseWord, .endIf] := by
  cases arms with
  | done =>
    obtain rfl := h.eq_of_nil
    simp [hend]
  | otherwise body =>
    have : m.current.kind = .elseWord := h.kind_current
    simp [this]
  | elseIf condition body rest =>
    have : m.current.kind = .elseWord := h.kind_current
    simp [this]

/-- A body of a conditional and what follows it. -/
theorem run_arms {body : Phrase .block} {arms : Phrase .arms} (hbody : Readable .block body)
    (harms : Readable .arms arms) {fuel : Nat} (opener : Token)
    (h : Ready ds s (body.word ++ arms.word) (body.mentions ++ arms.mentions) s')
    (hv : body.Valid ∧ arms.Valid) (hfuel : 2 * (body.word.length + arms.word.length) < fuel)
    (hend : s'.current.kind = .endIf) :
    ∃ b m a, blockWithin fuel opener .endIf [.elseWord, .endIf] ⟨s, ds⟩ = .ok b m ∧
      armsWithin fuel opener m = .ok a ⟨s', ds.after (body.mentions ++ arms.mentions)⟩ ∧
      bareBlock b = body.tree ds ∧ a.bare = arms.tree (ds.after body.mentions) := by
  obtain ⟨m, hready, hready'⟩ := h.split
  obtain ⟨b, hb, hbares⟩ := hbody.1 ds fuel opener .endIf [.elseWord, .endIf] s m hready hv.1
    (by omega) (kind_of_arms hready' hend) (by decide)
  obtain ⟨a, ha, hbare⟩ := harms _ fuel opener m s' hready' hv.2 (by omega) hend
  rw [← Grammar.after_append] at ha
  exact ⟨b, _, a, hb, ha, hbares, hbare⟩

theorem readable_branch {condition : Clause} {body : Phrase .block} {arms : Phrase .arms}
    (hbody : Readable .block body) (harms : Readable .arms arms) :
    Readable .statement (.branch condition body arms) := by
  intro ds fuel s s' h hv hfuel
  simp only [Phrase.word, List.length_cons, List.length_append] at hfuel
  obtain ⟨k, rfl⟩ : ∃ k, fuel = k + 1 := ⟨fuel - 1, by omega⟩
  obtain ⟨e, m, he, hbare, hrest⟩ := run_condition h.step
  rw [← List.append_assoc] at hrest
  obtain ⟨n, hready, hend⟩ := hrest.split_last
  obtain ⟨b, m', a, hb, ha, hbares, hbare'⟩ :=
    @run_arms ds m n body arms hbody harms k s.current hready hv (by omega) hend.kind_current
  rw [Phrase.mentions] at hend
  have hrun : statementWithin (k + 1) ⟨s, ds⟩ =
      conditional (blockWithin k) (armsWithin k) ⟨s, ds⟩ :=
    @statementWithin_of_kind k ⟨s, ds⟩ .ifWord h.kind_current
  unfold conditional at hrun
  rw [bind_of_ok h.advance, bind_of_ok he, bind_of_ok hb, bind_of_ok ha, bind_of_ok hend.expect]
    at hrun
  obtain rfl := hend.step.eq_of_nil
  refine ⟨_, hrun, ?_⟩
  rw [Stmt.bare, hbare, hbares, hbare']
  rfl

theorem readable_done : Readable .arms .done := by
  intro ds fuel opener s s' h _ hfuel hend
  obtain ⟨k, rfl⟩ : ∃ k, fuel = k + 1 := ⟨fuel - 1, by omega⟩
  obtain rfl := h.eq_of_nil
  refine ⟨.done, ?_, rfl⟩
  rw [armsWithin, bind_of_ok (run_take_ne (by simp [hend]))]
  rfl

theorem readable_otherwise {body : Phrase .block} (hbody : Readable .block body) :
    Readable .arms (.otherwise body) := by
  intro ds fuel opener s s' h hv hfuel hend
  simp only [Phrase.word, List.length_cons] at hfuel
  obtain ⟨k, rfl⟩ : ∃ k, fuel = k + 1 := ⟨fuel - 1, by omega⟩
  obtain ⟨b, hb, hbares⟩ := hbody.1 ds k opener .endIf [.endIf] s.step s' h.step hv.2 (by omega)
    (by simp [hend]) (by decide)
  have hif : s.step.current.kind ≠ .ifWord := by
    have hstep : Ready ds s.step body.word body.mentions s' := h.step
    cases hw : body.word with
    | nil =>
      rw [hw] at hstep
      rw [← hstep.eq_of_nil, hend]
      decide
    | cons x w =>
      rw [hw] at hstep
      rw [hstep.kind_current]
      intro hx
      have hmark := hstep.eq_mark (by rw [hx]; rfl)
      apply hv.1
      rw [hw, hmark, hx]
      rfl
  refine ⟨.otherwise b, ?_, ?_⟩
  · rw [armsWithin, bind_of_ok h.take]
    simp only [Bool.not_true, Bool.false_eq_true, if_false]
    rw [bind_of_ok (run_take_ne hif)]
    simp only [Bool.not_false, if_true]
    rw [bind_of_ok hb]
    rfl
  · rw [Arms.bare, hbares]
    rfl

theorem readable_elseIf {condition : Clause} {body : Phrase .block} {rest : Phrase .arms}
    (hbody : Readable .block body) (hrest : Readable .arms rest) :
    Readable .arms (.elseIf condition body rest) := by
  intro ds fuel opener s s' h hv hfuel hend
  simp only [Phrase.word, List.length_cons, List.length_append] at hfuel
  obtain ⟨k, rfl⟩ : ∃ k, fuel = k + 1 := ⟨fuel - 1, by omega⟩
  obtain ⟨e, m, he, hbare, hready⟩ := run_condition h.step.step
  obtain ⟨b, m', a, hb, ha, hbares, hbare'⟩ :=
    @run_arms ds m s' body rest hbody hrest k opener hready hv (by omega) hend
  refine ⟨.elseIf e b a, ?_, ?_⟩
  · rw [armsWithin, bind_of_ok h.take]
    simp only [Bool.not_true, Bool.false_eq_true, if_false]
    rw [bind_of_ok h.step.take]
    simp only [Bool.not_true, Bool.false_eq_true, if_false]
    rw [bind_of_ok he, bind_of_ok hb, bind_of_ok ha]
    rfl
  · rw [Arms.bare, hbare, hbares, hbare']
    rfl

/-! ## Loops -/

theorem run_loopBody {body : Phrase .block} (hbody : Readable .block body) {fuel : Nat}
    (opener : Token) (h : Ready ds s (body.word ++ [.mark .loopEnd]) body.mentions s')
    (hv : body.Valid) (hfuel : 2 * body.word.length < fuel) :
    ∃ b, loopBody (blockWithin fuel) opener ⟨s, ds⟩ = .ok b ⟨s', ds.after body.mentions⟩ ∧
      bareBlock b = body.tree ds := by
  obtain ⟨m, hready, hend⟩ := h.split_last
  have hkind : m.current.kind = .loopEnd := hend.kind_current
  obtain ⟨b, hb, hbares⟩ := hbody.1 ds fuel opener .loopEnd [.loopEnd] s m hready hv hfuel
    (by simp [hkind]) (by decide)
  refine ⟨b, ?_, hbares⟩
  unfold loopBody
  rw [bind_of_ok hb, bind_of_ok hend.expect]
  obtain rfl := hend.step.eq_of_nil
  rfl

theorem readable_whileBefore {condition : Clause} {body : Phrase .block}
    (hbody : Readable .block body) : Readable .statement (.whileBefore condition body) := by
  intro ds fuel s s' h hv hfuel
  simp only [Phrase.word, List.length_cons, List.length_append] at hfuel
  obtain ⟨k, rfl⟩ : ∃ k, fuel = k + 1 := ⟨fuel - 1, by omega⟩
  obtain ⟨e, m, he, hbare, hrest⟩ := h.step.expression rfl
  obtain ⟨b, hb, hbares⟩ :=
    @run_loopBody ds m.step s' body hbody k m.current hrest.step hv (by omega)
  have hrun : statementWithin (k + 1) ⟨s, ds⟩ = conditionFirst (blockWithin k) ⟨s, ds⟩ :=
    @statementWithin_of_kind k ⟨s, ds⟩ .whileWord h.kind_current
  unfold conditionFirst at hrun
  rw [bind_of_ok h.expect, bind_of_ok he] at hrun
  unfold afterCondition at hrun
  rw [bind_of_ok hrest.expect, bind_of_ok hb] at hrun
  refine ⟨_, hrun, ?_⟩
  rw [Stmt.bare, hbare, hbares]
  rfl

/-- A loop is told by the symbols behind the word that opens it. -/
theorem run_countAhead {x y : Symbol} (h : Ready ds s (x :: y :: w) ms s') :
    countAhead ⟨s, ds⟩ = .ok (Grammar.startsCount (x :: y :: w)) ⟨s, ds⟩ := by
  have hnext : next ⟨s, ds⟩ = .ok s.next ⟨s, ds⟩ := rfl
  unfold countAhead
  rw [bind_of_ok hnext, bind_of_ok (current_eq _), h.next]
  simp only [h.kind_current, Grammar.startsCount, continuesCount_eq]
  cases x.kind <;> rfl

theorem run_loopFirst {block : BlockParser} {rounds : Token → Parser (List Stmt × Expr)}
    {x y : Symbol} {counts : Bool} (h : Ready ds s (.mark .loopBegin :: x :: y :: w) ms s')
    (hform : Grammar.loopForm (x :: y :: w) = some counts) :
    loopFirst block rounds ⟨s, ds⟩ =
      (if counts = true then do
          let count ← expression
          let _ ← expect .times
          let body ← loopBody block s.current
          return .counted count body
        else do
          let (body, condition) ← rounds s.current
          return .loop condition body .post : Parser Stmt) ⟨s.step, ds⟩ := by
  unfold Grammar.loopForm at hform
  split at hform
  next => cases hform
  next hhead =>
    have hstep := h.step
    have hne : x.kind ≠ .whileWord := by
      intro hx
      apply hhead
      rw [hstep.eq_mark (by rw [hx]; rfl), hx]
      rfl
    unfold loopFirst
    rw [bind_of_ok h.expect, bind_of_ok (hstep.take_other .whileWord hne), if_neg (by decide)]
    dsimp only
    rw [bind_of_ok (run_countAhead hstep), Option.some.inj hform]

theorem exists_cons_cons {u : List Symbol} (hu : u ≠ []) (z : Symbol) (v : List Symbol) :
    ∃ x y w, u ++ z :: v = x :: y :: w := by
  match u, hu with
  | [x], _ => exact ⟨x, z, v, rfl⟩
  | x :: y :: w, _ => exact ⟨x, y, w ++ z :: v, rfl⟩

theorem readable_whileInside {condition : Clause} {body : Phrase .block}
    (hbody : Readable .block body) : Readable .statement (.whileInside condition body) := by
  intro ds fuel s s' h hv hfuel
  simp only [Phrase.word, List.length_cons, List.length_append] at hfuel
  obtain ⟨k, rfl⟩ : ∃ k, fuel = k + 1 := ⟨fuel - 1, by omega⟩
  obtain ⟨x, w, hw, hx⟩ : ∃ x w, body.word ++ [.mark .loopEnd] = x :: w ∧
      x.kind.isOperator = false := by
    cases body with
    | nil => exact ⟨.mark .loopEnd, [], rfl, rfl⟩
    | cons first rest =>
      obtain ⟨x, w, hw, hx⟩ := first.exists_head
      exact ⟨x, w ++ rest.word ++ [.mark .loopEnd], by simp [hw],
        Kind.isOperator_of_startsStatement hx⟩
  have hcondition := h.step.step
  rw [hw] at hcondition
  obtain ⟨e, m, he, hbare, hrest⟩ := hcondition.expression hx
  rw [← hw] at hrest
  obtain ⟨b, hb, hbares⟩ := @run_loopBody ds m s' body hbody k s.current hrest hv (by omega)
  have hrun : statementWithin (k + 1) ⟨s, ds⟩ =
      loopFirst (blockWithin k) (roundsWithin k) ⟨s, ds⟩ :=
    @statementWithin_of_kind k ⟨s, ds⟩ .loopBegin h.kind_current
  unfold loopFirst at hrun
  rw [bind_of_ok h.expect, bind_of_ok h.step.take, if_pos rfl, bind_of_ok he, bind_of_ok hb] at hrun
  refine ⟨_, hrun, ?_⟩
  rw [Stmt.bare, hbare, hbares]
  rfl

theorem readable_counted {count : Clause} {body : Phrase .block}
    (hbody : Readable .block body) : Readable .statement (.counted count body) := by
  intro ds fuel s s' h hv hfuel
  simp only [Phrase.word, List.length_cons, List.length_append] at hfuel
  obtain ⟨k, rfl⟩ : ∃ k, fuel = k + 1 := ⟨fuel - 1, by omega⟩
  obtain ⟨e, m, he, hbare, hrest⟩ := h.step.expression rfl
  obtain ⟨b, hb, hbares⟩ :=
    @run_loopBody ds m.step s' body hbody k s.current hrest.step hv.2 (by omega)
  obtain ⟨x, y, w, hw⟩ := exists_cons_cons count.seamed_word.ne_nil (.mark .times)
    (body.word ++ [.mark .loopEnd])
  have hform := @Grammar.loopForm_counted count (body.word ++ [.mark .loopEnd]) hv.1
  have hloop := h
  rw [Phrase.word, hw] at hloop
  rw [hw] at hform
  have hrun : statementWithin (k + 1) ⟨s, ds⟩ =
      loopFirst (blockWithin k) (roundsWithin k) ⟨s, ds⟩ :=
    @statementWithin_of_kind k ⟨s, ds⟩ .loopBegin h.kind_current
  rw [run_loopFirst hloop hform, if_pos rfl, bind_of_ok he, bind_of_ok hrest.expect,
    bind_of_ok hb] at hrun
  refine ⟨_, hrun, ?_⟩
  rw [Stmt.bare, hbare, hbares]
  rfl

theorem readable_whileAfter {condition : Clause} {body : Phrase .block}
    (hbody : Readable .block body) : Readable .statement (.whileAfter body condition) := by
  intro ds fuel s s' h hv hfuel
  simp only [Phrase.word, Grammar.roundsWord, List.length_cons, List.length_append] at hfuel
  obtain ⟨k, rfl⟩ : ∃ k, fuel = k + 1 := ⟨fuel - 1, by omega⟩
  obtain ⟨b, last, hb, hbares, hbare⟩ :=
    hbody.2 ds k s.current condition s.step s' h.step hv.2.2 (by omega)
  obtain ⟨x, y, w, hw⟩ := exists_cons_cons hv.1 (.mark .whileWord)
    (condition.word ++ [.mark .loopEnd])
  have hform := @Grammar.loopForm_block body
    (.mark .whileWord :: (condition.word ++ [.mark .loopEnd])) hv.1 hv.2.1
  have hloop := h
  rw [Phrase.word, Grammar.roundsWord, hw] at hloop
  rw [hw] at hform
  have hrun : statementWithin (k + 1) ⟨s, ds⟩ =
      loopFirst (blockWithin k) (roundsWithin k) ⟨s, ds⟩ :=
    @statementWithin_of_kind k ⟨s, ds⟩ .loopBegin h.kind_current
  rw [run_loopFirst hloop hform, if_neg (by decide), bind_of_ok hb] at hrun
  refine ⟨_, hrun, ?_⟩
  rw [Stmt.bare, hbare, hbares]
  rfl

/-! ## Programs -/

theorem exists_succ {c : Category} {p : Phrase c} {fuel : Nat} (h : 2 * p.word.length ≤ fuel)
    (hne : p.word ≠ []) : ∃ k, fuel = k + 1 := by
  have := List.length_pos_iff.mpr hne
  exact ⟨fuel - 1, by omega⟩

/-- Every phrase is read where its symbols lie ahead. -/
theorem readable {c : Category} (p : Phrase c) : Readable c p := by
  induction p with
  | declare type name init =>
    intro ds fuel s s' h _ hfuel
    obtain ⟨k, rfl⟩ := exists_succ hfuel (List.cons_ne_nil _ _)
    obtain ⟨stmt, hstmt, hbare⟩ := run_declaration ⟨h.within, h.passes, h.fits, trivial⟩
    exact ⟨stmt, (@statementWithin_of_kind k ⟨s, ds⟩ (.typeWord type) h.kind_current).trans hstmt,
      hbare⟩
  | assign name value =>
    intro ds fuel s s' h _ hfuel
    obtain ⟨k, rfl⟩ := exists_succ hfuel (List.cons_ne_nil _ _)
    obtain ⟨stmt, hstmt, hbare⟩ := run_assignment h
    exact ⟨stmt, (@statementWithin_of_kind k ⟨s, ds⟩ .name h.kind_current).trans hstmt, hbare⟩
  | branch condition body arms hbody harms => exact readable_branch hbody harms
  | whileInside condition body hbody => exact readable_whileInside hbody
  | whileBefore condition body hbody => exact readable_whileBefore hbody
  | counted count body hbody => exact readable_counted hbody
  | whileAfter body condition hbody => exact readable_whileAfter hbody
  | write value =>
    intro ds fuel s s' h _ hfuel
    obtain ⟨k, rfl⟩ := exists_succ hfuel (List.cons_ne_nil _ _)
    obtain ⟨stmt, hstmt, hbare⟩ := run_writing h
    exact ⟨stmt, (@statementWithin_of_kind k ⟨s, ds⟩ .writeWord h.kind_current).trans hstmt, hbare⟩
  | read name =>
    intro ds fuel s s' h _ hfuel
    obtain ⟨k, rfl⟩ := exists_succ hfuel (List.cons_ne_nil _ _)
    obtain ⟨type, htype⟩ := Option.isSome_iff_exists.mp h.covered.1
    obtain ⟨stmt, hstmt, hbare⟩ := run_reading ⟨h.within, h.passes, h.fits, trivial⟩ htype
    refine ⟨stmt, (@statementWithin_of_kind k ⟨s, ds⟩ .readWord h.kind_current).trans hstmt, ?_⟩
    rw [hbare, Phrase.tree, htype]
    rfl
  | giveBack value =>
    intro ds fuel s s' h _ hfuel
    obtain ⟨k, rfl⟩ := exists_succ hfuel (List.cons_ne_nil _ _)
    obtain ⟨stmt, hstmt, hbare⟩ := run_returning h
    exact ⟨stmt, (@statementWithin_of_kind k ⟨s, ds⟩ .returnWord h.kind_current).trans hstmt, hbare⟩
  | nil => exact readable_nil
  | cons first rest hfirst hrest => exact readable_cons hfirst hrest
  | done => exact readable_done
  | otherwise body hbody => exact readable_otherwise hbody
  | elseIf condition body rest hbody hrest => exact readable_elseIf hbody hrest

/-- The statements of a program are read one by one, each with fuel of its own. Behind them the
reader goes on. -/
theorem statements_continue (b : Phrase .block) {fuel : Nat}
    (h : Ready ds s b.word b.mentions s') (hv : b.Valid) (hfuel : s.remaining < fuel) :
    ∃ body fuel', bareBlock body = b.tree ds ∧ s'.remaining < fuel' ∧
      ∀ rest m, statementsWithin fuel' ⟨s', ds.after b.mentions⟩ = .ok rest m →
        statementsWithin fuel ⟨s, ds⟩ = .ok (body ++ rest) m := by
  induction fuel generalizing b ds s with
  | zero => omega
  | succ fuel ih =>
    cases b with
    | nil =>
      obtain rfl := h.eq_of_nil
      exact ⟨[], fuel + 1, rfl, hfuel, fun rest m hrest => hrest⟩
    | cons first rest =>
      obtain ⟨x, w, hw, hx⟩ := first.exists_head
      have hlength : first.word.length = w.length + 1 := by rw [hw, List.length_cons]
      obtain ⟨m, hready, hready'⟩ := h.split
      have hremaining := hready.passes.length_le
      have hkind : s.current.kind = x.kind := by
        rw [hw] at hready
        exact hready.kind_current
      have hgoes : ¬ (s.current.kind = .programEnd ∨ s.current.kind = .endOfInput) := by
        rw [hkind]
        rintro (hk | hk)
        · rw [hk] at hx
          cases hx
        · rw [hk] at hx
          cases hx
      obtain ⟨stmt, hstmt, hbare⟩ :=
        readable first ds (2 * s.remaining + 2) s m hready hv.1 (by omega)
      obtain ⟨body, fuel', hbares, hfuel', hgoesOn⟩ := ih rest hready' hv.2 (by omega)
      have hstatement : statement ⟨s, ds⟩ = .ok stmt ⟨m, ds.after first.mentions⟩ := hstmt
      refine ⟨stmt :: body, fuel', ?_, hfuel', ?_⟩
      · rw [bareBlock, hbare, hbares]
        rfl
      · intro more n hmore
        rw [Phrase.mentions, Grammar.after_append] at hmore
        rw [statementsWithin, bind_of_ok (current_eq _)]
        dsimp only
        rw [if_neg hgoes, bind_of_ok hstatement, bind_of_ok (hgoesOn more n hmore)]
        rfl

theorem statements_complete (b : Phrase .block) {fuel : Nat} (h : Ready ds s b.word b.mentions s')
    (hv : b.Valid) (hfuel : s.remaining < fuel) (hend : s'.current.kind = .programEnd) :
    ∃ body, statementsWithin fuel ⟨s, ds⟩ = .ok body ⟨s', ds.after b.mentions⟩ ∧
      bareBlock body = b.tree ds := by
  obtain ⟨body, fuel', hbares, hfuel', hgoesOn⟩ := statements_continue b h hv hfuel
  obtain ⟨k, rfl⟩ : ∃ k, fuel' = k + 1 := ⟨fuel' - 1, by omega⟩
  refine ⟨body, ?_, hbares⟩
  rw [← List.append_nil body]
  apply hgoesOn
  rw [statementsWithin, bind_of_ok (current_eq _)]
  dsimp only
  rw [if_pos (.inl hend)]
  rfl

/-- Reading a program comes down to reading its statements. -/
theorem run_program {m : Stream} {body : Program} (hfirst : Passes s [.mark .programBegin] s.step)
    (hbody : statementsWithin (s.step.remaining + 1) ⟨s.step, []⟩ = .ok body ⟨m, ds⟩)
    (hlast : Passes m [.mark .programEnd] s') (hend : s'.current.kind = .endOfInput) :
    program ⟨s, []⟩ = .ok body ⟨s', ds⟩ := by
  obtain ⟨t, rest, hahead, ht, -⟩ := hfirst.uncons
  obtain ⟨u, rest', hahead', hu, -⟩ := hlast.uncons
  obtain ⟨rest'', hrest⟩ := exists_ahead hlast.complete_right
  have ht : t.kind = .programBegin := congrArg Symbol.kind ht
  have hu : u.kind = .programEnd := congrArg Symbol.kind hu
  have hs' : s' = m.step := hlast.eq_skip
  have hstate : (get : Parser State) ⟨s.step, []⟩ = .ok ⟨s.step, []⟩ ⟨s.step, []⟩ := rfl
  unfold program
  rw [bind_of_ok (run_expect hahead ht nofun), bind_of_ok hstate, bind_of_ok hbody,
    bind_of_ok (run_expect hahead' hu nofun), ← hs', bind_of_ok (run_expect_end hrest hend)]
  rfl

/-- A derived program is read to the end of the source. -/
theorem program_complete (b : Phrase .block) (hnear : s.Near)
    (h : Passes s (Grammar.programWord b) s') (hfits : ∀ x ∈ Grammar.programWord b, x.Fits)
    (hv : b.Valid) (hannounced : Grammar.Announced b.mentions)
    (hend : s'.current.kind = .endOfInput) :
    ∃ body m, program ⟨s, []⟩ = .ok body m ∧ bareBlock body = b.tree [] := by
  have hready : Ready [] s (Grammar.programWord b) b.mentions s' :=
    ⟨⟨0, .of_near hnear _⟩, h, hfits, (Grammar.cover_nil_iff _).mpr hannounced⟩
  obtain ⟨m, hbody, hlast⟩ := hready.step.split_last
  obtain ⟨body, hrun, hbares⟩ :=
    statements_complete b hbody hv (Nat.lt_succ_self _) hlast.kind_current
  obtain ⟨s₁, hfirst, -⟩ := @Passes.split s s' [.mark .programBegin] _ h
  obtain rfl : s₁ = s.step := hfirst.eq_skip
  exact ⟨body, _, run_program hfirst hrun hlast.passes hend, hbares⟩

end Parsing

end Bukvar
