import Bukvar.Proofs.Grammar.Unambiguity
import Bukvar.Proofs.Parsing.ProgramStep
import Bukvar.Proofs.Parsing.Soundness

/-!
# What is read is derived

The induction is on the fuel. Each reader is inverted into the steps that it took, and `Took`
puts the symbols and the mentions of these steps together to those of a phrase.

* `readers_sound`: statements, blocks, rounds and arms that were read are phrases.
* `program_sound`: a program that was read is derived.
-/

namespace Bukvar

open Token (Kind Stream)
open Grammar (Symbol symbol Derivation Clause Declarations Mention Phrase Category)

theorem Grammar.Derivation.exists_assign {d : Clause} {name : String} {w : List Symbol}
    (h : d.word = ⟨.name, name⟩ :: .mark (.operator .assign) :: w) :
    ∃ value, d = .assign (.name name) value := by
  cases d with
  | assign target value =>
    cases target with
    | name text =>
      obtain ⟨hname, -⟩ := List.cons.inj h
      cases hname
      exact ⟨value, rfl⟩
    | group inner =>
      obtain ⟨hname, -⟩ := List.cons.inj h
      cases hname
  | ofComparison inner =>
    have hbalanced := @Grammar.balanced_single ⟨.name, name⟩ nofun nofun
    exact absurd h (inner.word_ne_operation hbalanced (by decide))

namespace Parsing

/-- Between two states the symbols were passed, with the given mentions among them. -/
structure Took (m : State) (w : List Symbol) (ms : List Mention) (m' : State) : Prop where
  passes : Passes m.stream w m'.stream
  fits : ∀ x ∈ w, x.Fits
  covered : Declarations.Cover m.declared ms
  declared : m'.declared = Declarations.after m.declared ms

namespace Took

variable {m n m' : State} {w : List Symbol} {ms : List Mention}

theorem refl (h : Token.Complete m.stream.ahead) : Took m [] [] m :=
  ⟨.refl h, by simp, trivial, rfl⟩

theorem trans {u v : List Symbol} {ns : List Mention} (h : Took m u ms n)
    (h' : Took n v ns m') : Took m (u ++ v) (ms ++ ns) m' := by
  refine ⟨h.passes.trans h'.passes, ?_, ?_, ?_⟩
  · intro x hx
    rcases List.mem_append.mp hx with hx | hx
    · exact h.fits x hx
    · exact h'.fits x hx
  · rw [Grammar.cover_append]
    exact ⟨h.covered, h.declared ▸ h'.covered⟩
  · rw [Grammar.after_append, h'.declared, h.declared]

/-- Symbols behind the last mention. -/
theorem append {u v : List Symbol} (h : Took m u ms n) (h' : Took n v [] m') :
    Took m (u ++ v) ms m' := by
  have := h.trans h'
  rwa [List.append_nil] at this

theorem complete (h : Took m w ms m') : Token.Complete m'.stream.ahead :=
  h.passes.complete_right

theorem head {x : Symbol} (h : Took m (x :: w) ms m') : symbol m.stream.current = x := by
  obtain ⟨t, rest, hahead, hx, -⟩ := h.passes.uncons
  rw [Stream.current_of_ahead hahead, hx]

theorem declare {name : String} {type : VarType} (h : Took m w [] m') :
    Took m w [.declares name type] { m' with declared := (name, type) :: m'.declared } := by
  refine ⟨h.passes, h.fits, trivial, ?_⟩
  rw [h.declared]
  rfl

theorem read {name : String} {type : VarType} (h : Took m w [] m')
    (htype : m.declared.lookup name = some type) : Took m w [.reads name] m' := by
  refine ⟨h.passes, h.fits, ⟨?_, trivial⟩, h.declared⟩
  rw [htype]
  rfl

end Took

variable {m m' : State}

theorem took_mark {t : Token} {k : Kind} (hk : t.kind = k) (htext : k.hasText = false)
    (hdeclared : m'.declared = m.declared) (hp : Passes m.stream [symbol t] m'.stream) :
    Took m [.mark k] [] m' := by
  rw [Grammar.symbol_eq_mark (hk ▸ htext), hk] at hp
  refine ⟨hp, ?_, trivial, hdeclared⟩
  intro x hx
  rw [List.mem_singleton.mp hx]
  exact Grammar.fits_mark htext

theorem took_advance {t : Token} {k : Kind} (hc : Token.Complete m.stream.ahead)
    (hk : m.stream.current.kind = k) (htext : k.hasText = false) (h : advance m = .ok t m') :
    Took m [.mark k] [] m' := by
  obtain ⟨s, ds⟩ := m
  obtain ⟨rfl, rfl, -, -, hp⟩ := passes_of_advance hc h
  exact took_mark hk htext rfl hp

theorem took_expect {t : Token} {k : Kind} (hc : Token.Complete m.stream.ahead)
    (hfixed : k.isFixed = true) (h : expect k m = .ok t m') : Took m [.mark k] [] m' := by
  obtain ⟨s, ds⟩ := m
  obtain ⟨rfl, hk, -, hp⟩ := passes_of_expect (Kind.ne_end_of_isFixed hfixed) hc h
  exact took_mark hk (Kind.hasText_of_isFixed hfixed) rfl hp

theorem took_ident {id : Ident} (hc : Token.Complete m.stream.ahead) (h : ident m = .ok id m') :
    Took m [⟨.name, id.name⟩] [] m' := by
  obtain ⟨s, ds⟩ := m
  obtain ⟨t, n, ht, hret⟩ := bind_eq_ok_iff.mp h
  cases hret
  obtain ⟨rfl, hk, -, hp⟩ := passes_of_expect (by decide) hc ht
  have hsymbol : symbol t = ⟨.name, t.text⟩ := by
    rw [symbol, hk]
    rfl
  rw [hsymbol] at hp
  exact ⟨hp, List.forall_mem_singleton.mpr (Grammar.fits_name t.text), trivial, rfl⟩

theorem took_take {b : Bool} {k : Kind} (hc : Token.Complete m.stream.ahead)
    (hfixed : k.isFixed = true) (h : take k m = .ok b m') :
    b = true ∧ Took m [.mark k] [] m' ∨
      b = false ∧ m' = m ∧ m.stream.current.kind ≠ k := by
  obtain ⟨s, ds⟩ := m
  obtain ⟨rest, hrest⟩ := exists_ahead hc
  by_cases hk : s.current.kind = k
  · rw [run_take hrest hk] at h
    cases h
    have hp := Passes.one hc hrest (hk ▸ Kind.ne_end_of_isFixed hfixed)
    exact .inl ⟨rfl, took_mark hk (Kind.hasText_of_isFixed hfixed) rfl hp⟩
  · rw [run_take_other hrest hk] at h
    cases h
    exact .inr ⟨rfl, rfl, hk⟩

theorem took_expression {e : Expr} (hc : Token.Complete m.stream.ahead)
    (h : expression m = .ok e m') :
    ∃ c : Clause, Took m c.word [] m' ∧ e.bare = c.tree ∧
      ∀ op, m'.stream.current.kind ≠ .operator op := by
  obtain ⟨s, ds⟩ := m
  obtain ⟨s', rfl, ⟨c, hp, hbare, hfits⟩, hnext⟩ := expression_sound hc h
  exact ⟨c, ⟨hp, hfits, trivial, rfl⟩, hbare, hnext⟩

/-- The tokens between two states are a phrase with the given tree. -/
def Derived (c : Category) (t : c.Tree) (m m' : State) : Prop :=
  ∃ p : Phrase c, Took m p.word p.mentions m' ∧ p.Valid ∧ t = p.tree m.declared

/-! ## Statements without blocks -/

theorem declaration_sound {type : VarType} {stmt : Stmt} (hc : Token.Complete m.stream.ahead)
    (hk : m.stream.current.kind = .typeWord type) (h : declarationOf type m = .ok stmt m') :
    Derived .statement stmt.bare m m' := by
  unfold declarationOf declarator at h
  obtain ⟨t, n₁, hadvance, h₁⟩ := bind_eq_ok_iff.mp h
  have htype := took_advance hc hk rfl hadvance
  obtain ⟨name, n₂, hident, h₂⟩ := bind_eq_ok_iff.mp h₁
  have hname := took_ident htype.complete hident
  obtain ⟨b, n₃, htake, h₃⟩ := bind_eq_ok_iff.mp h₂
  rcases took_take hname.complete rfl htake with ⟨rfl, hsign⟩ | ⟨rfl, rfl, -⟩
  · rw [if_pos rfl] at h₃
    obtain ⟨init, n₄, hmap, h₄⟩ := bind_eq_ok_iff.mp h₃
    obtain ⟨e, hexpr, rfl⟩ := map_eq_ok hmap
    obtain ⟨value, hvalue, hbare, -⟩ := took_expression hsign.complete hexpr
    obtain ⟨t', n₅, hexpect, h₅⟩ := bind_eq_ok_iff.mp h₄
    have hend := took_expect hvalue.complete rfl hexpect
    cases h₅
    refine ⟨.declare type name.name (some value),
      (htype.trans (hname.trans ((hsign.trans hvalue).trans hend))).declare, trivial, ?_⟩
    rw [Stmt.bare, Option.map_some, hbare]
    rfl
  · rw [if_neg (by decide)] at h₃
    obtain ⟨init, n₄, hpure, h₄⟩ := bind_eq_ok_iff.mp h₃
    cases hpure
    obtain ⟨t', n₅, hexpect, h₅⟩ := bind_eq_ok_iff.mp h₄
    have hend := took_expect hname.complete rfl hexpect
    cases h₅
    exact ⟨.declare type name.name none, (htype.trans (hname.trans hend)).declare, trivial, rfl⟩

/-- The symbols at the front of an expression that has the assignment sign behind its first
token. -/
theorem word_of_next {value : Clause} (h : Took m value.word [] m')
    (hk : m.stream.current.kind = .name) (hnext : m.stream.next.kind = .operator .assign)
    (hstop : ∀ op, m'.stream.current.kind ≠ .operator op) :
    ∃ w, value.word = ⟨.name, m.stream.current.text⟩ :: .mark (.operator .assign) :: w := by
  have hstep : m.stream.step.current = m.stream.next := rfl
  have hp := h.passes
  obtain ⟨x, w, hw, -⟩ := value.exists_head
  rw [hw] at hp
  obtain ⟨t, rest, hahead, hx, -, -, hp'⟩ := hp.uncons
  obtain rfl := Stream.current_of_ahead hahead
  have hname : x = ⟨.name, m.stream.current.text⟩ := by
    rw [← hx, symbol, hk]
    rfl
  cases w with
  | nil =>
    have hlast : m'.stream = m.stream.step := hp'.eq_skip
    apply absurd hnext
    rw [← hstep, ← hlast]
    exact hstop .assign
  | cons y w =>
    obtain ⟨t', rest', hahead', hy, -⟩ := hp'.uncons
    rw [← Stream.current_of_ahead hahead', hstep, Grammar.symbol_eq_mark (by rw [hnext]; rfl),
      hnext] at hy
    exact ⟨w, by rw [hw, hname, hy]⟩

theorem assignment_sound {stmt : Stmt} (hc : Token.Complete m.stream.ahead)
    (hk : m.stream.current.kind = .name) (h : assignment m = .ok stmt m') :
    Derived .statement stmt.bare m m' := by
  unfold assignment at h
  have hnext : next m = .ok m.stream.next m := rfl
  rw [bind_of_ok hnext] at h
  by_cases hassign : m.stream.next.kind = .operator .assign
  · rw [if_neg (not_not_intro hassign)] at h
    obtain ⟨e, n₁, hexpr, h₁⟩ := bind_eq_ok_iff.mp h
    obtain ⟨value, hvalue, hbare, hstop⟩ := took_expression hc hexpr
    obtain ⟨t, n₂, hexpect, h₂⟩ := bind_eq_ok_iff.mp h₁
    have hend := took_expect hvalue.complete rfl hexpect
    cases h₂
    obtain ⟨w, hw⟩ := word_of_next hvalue hk hassign hstop
    obtain ⟨inner, rfl⟩ := Derivation.exists_assign hw
    refine ⟨.assign m.stream.current.text inner, hvalue.trans hend, trivial, ?_⟩
    rw [Stmt.bare, hbare]
    rfl
  · rw [if_pos hassign] at h
    obtain ⟨a, n, hreject, -⟩ := bind_eq_ok_iff.mp h
    exact absurd hreject reject_ne_ok

theorem writing_sound {stmt : Stmt} (hc : Token.Complete m.stream.ahead)
    (hk : m.stream.current.kind = .writeWord) (h : writing m = .ok stmt m') :
    Derived .statement stmt.bare m m' := by
  unfold writing at h
  obtain ⟨t, n₁, hadvance, h₁⟩ := bind_eq_ok_iff.mp h
  have hword := took_advance hc hk rfl hadvance
  obtain ⟨e, n₂, hexpr, h₂⟩ := bind_eq_ok_iff.mp h₁
  obtain ⟨value, hvalue, hbare, -⟩ := took_expression hword.complete hexpr
  obtain ⟨t', n₃, hexpect, h₃⟩ := bind_eq_ok_iff.mp h₂
  have hend := took_expect hvalue.complete rfl hexpect
  cases h₃
  refine ⟨.write value, hword.trans (hvalue.trans hend), trivial, ?_⟩
  rw [Stmt.bare, hbare]
  rfl

theorem reading_sound {stmt : Stmt} (hc : Token.Complete m.stream.ahead)
    (hk : m.stream.current.kind = .readWord) (h : reading m = .ok stmt m') :
    Derived .statement stmt.bare m m' := by
  unfold reading at h
  obtain ⟨t, n₁, hadvance, h₁⟩ := bind_eq_ok_iff.mp h
  have hword := took_advance hc hk rfl hadvance
  obtain ⟨name, n₂, hident, h₂⟩ := bind_eq_ok_iff.mp h₁
  have hname := took_ident hword.complete hident
  have hlookup : typeOf? name.name n₂ = .ok (n₂.declared.lookup name.name) n₂ := rfl
  rw [bind_of_ok hlookup] at h₂
  have hdeclared : n₂.declared = m.declared := (hword.trans hname).declared
  rw [hdeclared] at h₂
  cases htype : m.declared.lookup name.name with
  | none =>
    rw [htype] at h₂
    exact absurd h₂ reject_ne_ok
  | some type =>
    rw [htype] at h₂
    obtain ⟨t', n₃, hexpect, h₃⟩ := bind_eq_ok_iff.mp h₂
    have hend := took_expect hname.complete rfl hexpect
    cases h₃
    refine ⟨.read name.name, (hword.trans (hname.trans hend)).read htype, trivial, ?_⟩
    rw [Stmt.bare, Phrase.tree, htype]
    rfl

theorem returning_sound {stmt : Stmt} (hc : Token.Complete m.stream.ahead)
    (hk : m.stream.current.kind = .returnWord) (h : returning m = .ok stmt m') :
    Derived .statement stmt.bare m m' := by
  unfold returning at h
  obtain ⟨t, n₁, hadvance, h₁⟩ := bind_eq_ok_iff.mp h
  have hword := took_advance hc hk rfl hadvance
  obtain ⟨b, n₂, htake, h₂⟩ := bind_eq_ok_iff.mp h₁
  rcases took_take hword.complete rfl htake with ⟨rfl, hend⟩ | ⟨rfl, rfl, -⟩
  · cases h₂
    exact ⟨.giveBack none, hword.trans hend, trivial, rfl⟩
  · rw [if_neg (by decide)] at h₂
    obtain ⟨e, n₂, hexpr, h₃⟩ := bind_eq_ok_iff.mp h₂
    obtain ⟨value, hvalue, hbare, -⟩ := took_expression hword.complete hexpr
    obtain ⟨t', n₃, hexpect, h₄⟩ := bind_eq_ok_iff.mp h₃
    have hend := took_expect hvalue.complete rfl hexpect
    cases h₄
    refine ⟨.giveBack (some value), hword.trans (hvalue.trans hend), trivial, ?_⟩
    rw [Stmt.bare, Option.map_some, hbare]
    rfl

/-! ## Conditionals -/

/-- What is read as statements of a block is derived. -/
def BlockSound (block : BlockParser) : Prop :=
  ∀ opener closer stops m body m', Token.Complete m.stream.ahead →
    block opener closer stops m = .ok body m' → Derived .block (bareBlock body) m m'

/-- What is read as arms is derived. -/
def ArmsSound (arms : Token → Parser Arms) : Prop :=
  ∀ opener m a m', Token.Complete m.stream.ahead → arms opener m = .ok a m' →
    Derived .arms a.bare m m'

/-- What is read as the rounds of a loop is derived. -/
def RoundsSound (rounds : Token → Parser (List Stmt × Expr)) : Prop :=
  ∀ opener m r m', Token.Complete m.stream.ahead → rounds opener m = .ok r m' →
    ∃ (b : Phrase .block) (c : Clause), Took m (Grammar.roundsWord b.word c) b.mentions m' ∧
      b.Valid ∧ bareBlock r.1 = b.tree m.declared ∧ r.2.bare = c.tree

/-- What is read as a statement is derived. -/
def StatementSound (statement : Parser Stmt) : Prop :=
  ∀ m stmt m', Token.Complete m.stream.ahead → statement m = .ok stmt m' →
    Derived .statement stmt.bare m m'

theorem took_condition {e : Expr} (hc : Token.Complete m.stream.ahead)
    (h : condition m = .ok e m') :
    ∃ c : Clause, Took m (c.word ++ [.mark .thenWord]) [] m' ∧ e.bare = c.tree := by
  unfold condition at h
  obtain ⟨e', n₁, hexpr, h₁⟩ := bind_eq_ok_iff.mp h
  obtain ⟨c, hcondition, hbare, -⟩ := took_expression hc hexpr
  obtain ⟨t, n₂, hexpect, h₂⟩ := bind_eq_ok_iff.mp h₁
  have hend := took_expect hcondition.complete rfl hexpect
  cases h₂
  exact ⟨c, hcondition.trans hend, hbare⟩

theorem conditional_sound {block : BlockParser} {arms : Token → Parser Arms} {stmt : Stmt}
    (hblock : BlockSound block) (harms : ArmsSound arms) (hc : Token.Complete m.stream.ahead)
    (hk : m.stream.current.kind = .ifWord) (h : conditional block arms m = .ok stmt m') :
    Derived .statement stmt.bare m m' := by
  unfold conditional at h
  obtain ⟨opener, n₁, hadvance, h₁⟩ := bind_eq_ok_iff.mp h
  have hword := took_advance hc hk rfl hadvance
  obtain ⟨e, n₂, hcondition, h₂⟩ := bind_eq_ok_iff.mp h₁
  obtain ⟨c, hcond, hbare⟩ := took_condition hword.complete hcondition
  obtain ⟨body, n₃, hbody, h₃⟩ := bind_eq_ok_iff.mp h₂
  obtain ⟨b, htook, hv, hbares⟩ := hblock _ _ _ _ _ _ hcond.complete hbody
  obtain ⟨rest, n₄, hrest, h₄⟩ := bind_eq_ok_iff.mp h₃
  obtain ⟨a, htook', hv', hbare'⟩ := harms _ _ _ _ htook.complete hrest
  obtain ⟨t, n₅, hexpect, h₅⟩ := bind_eq_ok_iff.mp h₄
  have hend := took_expect htook'.complete rfl hexpect
  cases h₅
  have hall := hword.trans (hcond.trans (htook.trans (htook'.append hend)))
  rw [List.append_assoc] at hall
  refine ⟨.branch c b a, hall, ⟨hv, hv'⟩, ?_⟩
  have hdeclared : n₂.declared = m.declared := (hword.trans hcond).declared
  rw [Stmt.bare, hbare, hbares, hbare', htook.declared, hdeclared]
  rfl

theorem Took.head?_ne {w : List Symbol} {ms : List Mention} {k : Kind} (h : Took m w ms m')
    (hk : m.stream.current.kind ≠ k) : w.head? ≠ some (.mark k) := by
  cases w with
  | nil => simp
  | cons x w =>
    intro hx
    obtain rfl := Option.some.inj hx
    exact hk (congrArg Symbol.kind h.head)

theorem arms_sound_succ {fuel : Nat} (hblock : BlockSound (blockWithin fuel))
    (harms : ArmsSound (armsWithin fuel)) : ArmsSound (armsWithin (fuel + 1)) := by
  intro opener m arms m' hc h
  rw [armsWithin] at h
  obtain ⟨b, n₁, htake, h₁⟩ := bind_eq_ok_iff.mp h
  rcases took_take hc rfl htake with ⟨rfl, helse⟩ | ⟨rfl, rfl, -⟩
  · simp only [Bool.not_true, Bool.false_eq_true, if_false] at h₁
    obtain ⟨b', n₂, htake', h₂⟩ := bind_eq_ok_iff.mp h₁
    rcases took_take helse.complete rfl htake' with ⟨rfl, hif⟩ | ⟨rfl, rfl, hne⟩
    · simp only [Bool.not_true, Bool.false_eq_true, if_false] at h₂
      obtain ⟨e, n₃, hcondition, h₃⟩ := bind_eq_ok_iff.mp h₂
      obtain ⟨c, hcond, hbare⟩ := took_condition hif.complete hcondition
      obtain ⟨body, n₄, hbody, h₄⟩ := bind_eq_ok_iff.mp h₃
      obtain ⟨b, htook, hv, hbares⟩ := hblock _ _ _ _ _ _ hcond.complete hbody
      obtain ⟨rest, n₅, hrest, h₅⟩ := bind_eq_ok_iff.mp h₄
      obtain ⟨a, htook', hv', hbare'⟩ := harms _ _ _ _ htook.complete hrest
      cases h₅
      have hall := helse.trans (hif.trans (hcond.trans (htook.trans htook')))
      rw [List.append_assoc] at hall
      refine ⟨.elseIf c b a, hall, ⟨hv, hv'⟩, ?_⟩
      have hdeclared : n₃.declared = m.declared := (helse.trans (hif.trans hcond)).declared
      rw [Arms.bare, hbare, hbares, hbare', htook.declared, hdeclared]
      rfl
    · simp only [Bool.not_false, if_true] at h₂
      obtain ⟨body, n₃, hbody, h₃⟩ := bind_eq_ok_iff.mp h₂
      obtain ⟨b, htook, hv, hbares⟩ := hblock _ _ _ _ _ _ helse.complete hbody
      cases h₃
      refine ⟨.otherwise b, helse.trans htook, ⟨htook.head?_ne hne, hv⟩, ?_⟩
      rw [Arms.bare, hbares, helse.declared]
      rfl
  · cases h₁
    exact ⟨.done, .refl hc, trivial, rfl⟩

/-! ## Loops -/

theorem took_loopBody {block : BlockParser} {opener : Token} {body : List Stmt}
    (hblock : BlockSound block) (hc : Token.Complete m.stream.ahead)
    (h : loopBody block opener m = .ok body m') :
    ∃ b : Phrase .block, Took m (b.word ++ [.mark .loopEnd]) b.mentions m' ∧ b.Valid ∧
      bareBlock body = b.tree m.declared := by
  unfold loopBody at h
  obtain ⟨body', n₁, hbody, h₁⟩ := bind_eq_ok_iff.mp h
  obtain ⟨b, htook, hv, hbares⟩ := hblock _ _ _ _ _ _ hc hbody
  obtain ⟨t, n₂, hexpect, h₂⟩ := bind_eq_ok_iff.mp h₁
  have hend := took_expect htook.complete rfl hexpect
  cases h₂
  exact ⟨b, htook.append hend, hv, hbares⟩

theorem took_afterCondition {block : BlockParser} {e : Expr} {stmt : Stmt}
    (hblock : BlockSound block) (hc : Token.Complete m.stream.ahead)
    (h : afterCondition block e m = .ok stmt m') :
    ∃ b : Phrase .block, Took m (.mark .loopBegin :: (b.word ++ [.mark .loopEnd])) b.mentions m' ∧
      b.Valid ∧ stmt.bare = .loop e.bare (b.tree m.declared) .pre := by
  unfold afterCondition at h
  obtain ⟨opener, n₁, hexpect, h₁⟩ := bind_eq_ok_iff.mp h
  have hword := took_expect hc rfl hexpect
  obtain ⟨body, n₂, hbody, h₂⟩ := bind_eq_ok_iff.mp h₁
  obtain ⟨b, htook, hv, hbares⟩ := took_loopBody hblock hword.complete hbody
  cases h₂
  refine ⟨b, hword.trans htook, hv, ?_⟩
  rw [Stmt.bare, hbares, hword.declared]
  rfl

theorem conditionFirst_sound {block : BlockParser} {stmt : Stmt} (hblock : BlockSound block)
    (hc : Token.Complete m.stream.ahead) (h : conditionFirst block m = .ok stmt m') :
    Derived .statement stmt.bare m m' := by
  unfold conditionFirst at h
  obtain ⟨t, n₁, hexpect, h₁⟩ := bind_eq_ok_iff.mp h
  have hword := took_expect hc rfl hexpect
  obtain ⟨e, n₂, hexpr, h₂⟩ := bind_eq_ok_iff.mp h₁
  obtain ⟨c, hcondition, hbare, -⟩ := took_expression hword.complete hexpr
  obtain ⟨b, htook, hv, hbares⟩ := took_afterCondition hblock hcondition.complete h₂
  refine ⟨.whileBefore c b, hword.trans (hcondition.trans htook), hv, ?_⟩
  have hdeclared : n₂.declared = m.declared := (hword.trans hcondition).declared
  rw [hbares, hbare, hdeclared]
  rfl

theorem countAhead_eq_ok {b : Bool} (hc : Token.Complete m.stream.ahead)
    (h : countAhead m = .ok b m') :
    m' = m ∧ Grammar.startsCount (m.stream.ahead.map symbol) = b := by
  have hnext : next m = .ok m.stream.next m := rfl
  unfold countAhead at h
  rw [bind_of_ok hnext, bind_of_ok (current_eq _)] at h
  obtain ⟨rest, hrest⟩ := exists_ahead hc
  rw [hrest, List.map_cons]
  cases hk : m.stream.current.kind with
  | name =>
    have hcomplete := Token.Complete.tail (hrest ▸ hc) (by rw [hk]; decide)
    obtain ⟨u, us, rfl⟩ := List.exists_cons_of_ne_nil hcomplete.ne_nil
    rw [hk, Stream.next_of_ahead hrest] at h
    cases h
    refine ⟨rfl, ?_⟩
    simp only [Grammar.startsCount, Grammar.kind_symbol, hk, List.map_cons]
    exact continuesCount_eq u.kind
  | _ =>
    rw [hk] at h
    cases h
    exact ⟨rfl, by simp [Grammar.startsCount, hk]⟩

theorem loopFirst_sound {block : BlockParser} {rounds : Token → Parser (List Stmt × Expr)}
    {stmt : Stmt} (hblock : BlockSound block) (hrounds : RoundsSound rounds)
    (hc : Token.Complete m.stream.ahead) (h : loopFirst block rounds m = .ok stmt m') :
    Derived .statement stmt.bare m m' := by
  unfold loopFirst at h
  obtain ⟨opener, n₁, hexpect, h₁⟩ := bind_eq_ok_iff.mp h
  have hword := took_expect hc rfl hexpect
  have hdeclared : n₁.declared = m.declared := hword.declared
  obtain ⟨b, n₂, htake, h₂⟩ := bind_eq_ok_iff.mp h₁
  rcases took_take hword.complete rfl htake with ⟨rfl, hwhile⟩ | ⟨rfl, rfl, hne⟩
  · rw [if_pos rfl] at h₂
    obtain ⟨e, n₃, hexpr, h₃⟩ := bind_eq_ok_iff.mp h₂
    obtain ⟨c, hcondition, hbare, -⟩ := took_expression hwhile.complete hexpr
    obtain ⟨body, n₄, hbody, h₄⟩ := bind_eq_ok_iff.mp h₃
    obtain ⟨b, htook, hv, hbares⟩ := took_loopBody hblock hcondition.complete hbody
    cases h₄
    refine ⟨.whileInside c b, hword.trans (hwhile.trans (hcondition.trans htook)), hv, ?_⟩
    have hdeclared' : n₃.declared = n₁.declared := (hwhile.trans hcondition).declared
    rw [Stmt.bare, hbare, hbares, hdeclared', hdeclared]
    rfl
  · rw [if_neg (by decide)] at h₂
    obtain ⟨b, n₃, hcount, h₃⟩ := bind_eq_ok_iff.mp h₂
    obtain ⟨rfl, hstarts⟩ := countAhead_eq_ok hword.complete hcount
    cases b with
    | true =>
      rw [if_pos rfl] at h₃
      obtain ⟨e, n₄, hexpr, h₄⟩ := bind_eq_ok_iff.mp h₃
      obtain ⟨c, hclause, hbare, -⟩ := took_expression hword.complete hexpr
      obtain ⟨t, n₅, hexpect', h₅⟩ := bind_eq_ok_iff.mp h₄
      have htimes := took_expect hclause.complete rfl hexpect'
      obtain ⟨body, n₆, hbody, h₆⟩ := bind_eq_ok_iff.mp h₅
      obtain ⟨b, htook, hv, hbares⟩ := took_loopBody hblock htimes.complete hbody
      cases h₆
      have hcounts : Grammar.startsCount (c.word ++ [.mark .times]) = true := by
        rw [(hclause.trans htimes).passes.ahead_eq, List.append_assoc] at hstarts
        rwa [← Grammar.startsCount_append c.seamed_word.ne_nil]
      refine ⟨.counted c b, hword.trans (hclause.trans (htimes.trans htook)), ⟨hcounts, hv⟩, ?_⟩
      have hdeclared' : n₅.declared = n₃.declared := (hclause.trans htimes).declared
      rw [Stmt.bare, hbare, hbares, hdeclared', hdeclared]
      rfl
    | false =>
      rw [if_neg (by decide)] at h₃
      obtain ⟨r, n₄, hrun, h₄⟩ := bind_eq_ok_iff.mp h₃
      obtain ⟨b, c, htook, hv, hbares, hbare⟩ := hrounds _ _ _ _ hword.complete hrun
      cases h₄
      have hhead := htook.head?_ne hne
      have hfirst : b.word ≠ [] := by
        intro h0
        rw [h0] at hhead
        exact hhead rfl
      have hhead' : b.word.head? ≠ some (.mark .whileWord) := by
        obtain ⟨x, w, hw⟩ := List.exists_cons_of_ne_nil hfirst
        rw [hw] at hhead ⊢
        exact hhead
      refine ⟨.whileAfter b c, hword.trans htook, ⟨hfirst, hhead', hv⟩, ?_⟩
      rw [Stmt.bare, hbare, hbares, hdeclared]
      rfl

/-! ## All statements -/

theorem statement_sound_succ {fuel : Nat} (hblock : BlockSound (blockWithin fuel))
    (harms : ArmsSound (armsWithin fuel)) (hrounds : RoundsSound (roundsWithin fuel)) :
    StatementSound (statementWithin (fuel + 1)) := by
  intro m stmt m' hc h
  rw [statementWithin_succ, bind_of_ok (current_eq _)] at h
  cases hk : m.stream.current.kind with
  | typeWord type =>
    rw [hk] at h
    exact declaration_sound hc hk h
  | name =>
    rw [hk] at h
    exact assignment_sound hc hk h
  | ifWord =>
    rw [hk] at h
    exact conditional_sound hblock harms hc hk h
  | loopBegin =>
    rw [hk] at h
    exact loopFirst_sound hblock hrounds hc h
  | whileWord =>
    rw [hk] at h
    exact conditionFirst_sound hblock hc h
  | writeWord =>
    rw [hk] at h
    exact writing_sound hc hk h
  | readWord =>
    rw [hk] at h
    exact reading_sound hc hk h
  | returnWord =>
    rw [hk] at h
    exact returning_sound hc hk h
  | _ =>
    rw [hk] at h
    exact absurd h reject_ne_ok

theorem derived_cons {stmt : Stmt} {body : List Stmt} {n : State}
    (hstmt : Derived .statement stmt.bare m n) (hbody : Derived .block (bareBlock body) n m') :
    Derived .block (bareBlock (stmt :: body)) m m' := by
  obtain ⟨p, hp, hv, hbare⟩ := hstmt
  obtain ⟨b, hb, hv', hbares⟩ := hbody
  refine ⟨.cons p b, hp.trans hb, ⟨hv, hv'⟩, ?_⟩
  rw [bareBlock, hbare, hbares, hp.declared]
  rfl

theorem Derived.complete {c : Category} {t : c.Tree} (h : Derived c t m m') :
    Token.Complete m'.stream.ahead := by
  obtain ⟨p, hp, -⟩ := h
  exact hp.complete

theorem block_sound_succ {fuel : Nat} (hstatement : StatementSound (statementWithin fuel))
    (hblock : BlockSound (blockWithin fuel)) : BlockSound (blockWithin (fuel + 1)) := by
  intro opener closer stops m body m' hc h
  rw [blockWithin, bind_of_ok (current_eq _)] at h
  dsimp only at h
  split at h
  next =>
    cases h
    exact ⟨.nil, .refl hc, trivial, rfl⟩
  next =>
    split at h
    next =>
      obtain ⟨a, n, hreject, -⟩ := bind_eq_ok_iff.mp h
      exact absurd hreject reject_ne_ok
    next =>
      obtain ⟨stmt, n₁, hstmt, h₁⟩ := bind_eq_ok_iff.mp h
      have hderived := hstatement _ _ _ hc hstmt
      obtain ⟨rest, n₂, hrest, h₂⟩ := bind_eq_ok_iff.mp h₁
      cases h₂
      exact derived_cons hderived (hblock _ _ _ _ _ _ hderived.complete hrest)

/-- A statement in front of more rounds. -/
theorem rounds_cons {p : Phrase .statement} {n : State} {c : Clause}
    {b : Phrase .block} (hp : Took m p.word p.mentions n)
    (hb : Took n (Grammar.roundsWord b.word c) b.mentions m') :
    Took m (Grammar.roundsWord (Phrase.cons p b).word c) (Phrase.cons p b).mentions m' := by
  have := hp.trans hb
  rwa [Grammar.roundsWord, ← List.append_assoc] at this

/-- A condition behind the statements of a loop, which ends the loop or starts one inside. -/
theorem rounds_sound_while {fuel : Nat} (hblock : BlockSound (blockWithin fuel))
    (hrounds : RoundsSound (roundsWithin fuel)) {opener : Token} {r : List Stmt × Expr}
    (hc : Token.Complete m.stream.ahead) (hk : m.stream.current.kind = .whileWord)
    (h : roundsWithin (fuel + 1) opener m = .ok r m') :
    ∃ (b : Phrase .block) (c : Clause), Took m (Grammar.roundsWord b.word c) b.mentions m' ∧
      b.Valid ∧ bareBlock r.1 = b.tree m.declared ∧ r.2.bare = c.tree := by
  rw [roundsWithin, bind_of_ok (current_eq _)] at h
  rw [hk] at h
  obtain ⟨t, n₁, hadvance, h₁⟩ := bind_eq_ok_iff.mp h
  have hword := took_advance hc hk rfl hadvance
  obtain ⟨e, n₂, hexpr, h₂⟩ := bind_eq_ok_iff.mp h₁
  obtain ⟨c, hcondition, hbare, -⟩ := took_expression hword.complete hexpr
  obtain ⟨b, n₃, htake, h₃⟩ := bind_eq_ok_iff.mp h₂
  rcases took_take hcondition.complete rfl htake with ⟨rfl, hend⟩ | ⟨rfl, rfl, -⟩
  · cases h₃
    exact ⟨.nil, c, hword.trans (hcondition.trans hend), trivial, rfl, hbare⟩
  · rw [if_neg (by decide), bind_of_ok (current_eq _)] at h₃
    split at h₃
    next =>
      obtain ⟨a, n, hreject, -⟩ := bind_eq_ok_iff.mp h₃
      exact absurd hreject reject_ne_ok
    next =>
      obtain ⟨stmt, n₄, hafter, h₄⟩ := bind_eq_ok_iff.mp h₃
      obtain ⟨b, htook, hv, hbares⟩ := took_afterCondition hblock hcondition.complete hafter
      obtain ⟨r', n₅, hrun, h₅⟩ := bind_eq_ok_iff.mp h₄
      obtain ⟨b', c', htook', hv', hbares', hbare'⟩ := hrounds _ _ _ _ htook.complete hrun
      cases h₅
      have hfirst := hword.trans (hcondition.trans htook)
      refine ⟨.cons (.whileBefore c b) b', c', rounds_cons hfirst htook', ⟨hv, hv'⟩, ?_, hbare'⟩
      have hdeclared : n₃.declared = m.declared := (hword.trans hcondition).declared
      rw [bareBlock, hbares, hbares', hbare, hdeclared, hfirst.declared]
      rfl

theorem rounds_sound_succ {fuel : Nat} (hstatement : StatementSound (statementWithin fuel))
    (hblock : BlockSound (blockWithin fuel)) (hrounds : RoundsSound (roundsWithin fuel)) :
    RoundsSound (roundsWithin (fuel + 1)) := by
  intro opener m r m' hc h
  by_cases hwhile : m.stream.current.kind = .whileWord
  · exact rounds_sound_while hblock hrounds hc hwhile h
  · by_cases hloop : m.stream.current.kind = .loopEnd
    · rw [roundsWithin, bind_of_ok (current_eq _), hloop] at h
      exact absurd h reject_ne_ok
    · rw [roundsWithin_of_ne hwhile hloop] at h
      split at h
      next =>
        obtain ⟨a, n, hreject, -⟩ := bind_eq_ok_iff.mp h
        exact absurd hreject reject_ne_ok
      next =>
        obtain ⟨stmt, n₁, hstmt, h₁⟩ := bind_eq_ok_iff.mp h
        obtain ⟨p, hp, hv, hbare⟩ := hstatement _ _ _ hc hstmt
        obtain ⟨r', n₂, hrun, h₂⟩ := bind_eq_ok_iff.mp h₁
        obtain ⟨b, c, htook, hv', hbares, hlast⟩ := hrounds _ _ _ _ hp.complete hrun
        cases h₂
        refine ⟨.cons p b, c, rounds_cons hp htook, ⟨hv, hv'⟩, ?_, hlast⟩
        rw [bareBlock, hbare, hbares, hp.declared]
        rfl

/-- All readers of statements read phrases. -/
theorem readers_sound (fuel : Nat) :
    StatementSound (statementWithin fuel) ∧ BlockSound (blockWithin fuel) ∧
      ArmsSound (armsWithin fuel) ∧ RoundsSound (roundsWithin fuel) := by
  induction fuel with
  | zero =>
    refine ⟨?_, ?_, ?_, ?_⟩
    · intro m stmt m' _ h
      rw [statementWithin] at h
      cases h
    · intro opener closer stops m body m' _ h
      rw [blockWithin] at h
      cases h
    · intro opener m a m' _ h
      rw [armsWithin] at h
      cases h
    · intro opener m r m' _ h
      rw [roundsWithin] at h
      cases h
  | succ fuel ih =>
    obtain ⟨hstatement, hblock, harms, hrounds⟩ := ih
    exact ⟨statement_sound_succ hblock harms hrounds, block_sound_succ hstatement hblock,
      arms_sound_succ hblock harms, rounds_sound_succ hstatement hblock hrounds⟩

/-! ## Programs -/

theorem statements_sound {fuel : Nat} {body : List Stmt} (hc : Token.Complete m.stream.ahead)
    (h : statementsWithin fuel m = .ok body m') : Derived .block (bareBlock body) m m' := by
  induction fuel generalizing m body with
  | zero =>
    rw [statementsWithin] at h
    cases h
  | succ fuel ih =>
    rw [statementsWithin, bind_of_ok (current_eq _)] at h
    split at h
    next =>
      cases h
      exact ⟨.nil, .refl hc, trivial, rfl⟩
    next =>
      obtain ⟨stmt, n₁, hstmt, h₁⟩ := bind_eq_ok_iff.mp h
      have hderived := (readers_sound _).1 _ _ _ hc hstmt
      obtain ⟨rest, n₂, hrest, h₂⟩ := bind_eq_ok_iff.mp h₁
      cases h₂
      exact derived_cons hderived (ih hderived.complete hrest)

/-- A program that was read is derived, up to the mark at the end of the source. -/
theorem program_sound {s : Stream} {body : Program} (hc : Token.Complete s.ahead)
    (h : program ⟨s, []⟩ = .ok body m') :
    ∃ b : Phrase .block, Passes s (Grammar.programWord b) m'.stream ∧
      (∀ x ∈ Grammar.programWord b, x.Fits) ∧ b.Valid ∧ Grammar.Announced b.mentions ∧
      bareBlock body = b.tree [] ∧ m'.stream.current.kind = .endOfInput := by
  unfold program at h
  obtain ⟨t, n₁, hexpect, h₁⟩ := bind_eq_ok_iff.mp h
  have hbegin := took_expect hc rfl hexpect
  have hstate : (get : Parser State) n₁ = .ok n₁ n₁ := rfl
  rw [bind_of_ok hstate] at h₁
  obtain ⟨stmts, n₂, hrun, h₂⟩ := bind_eq_ok_iff.mp h₁
  obtain ⟨b, htook, hv, hbares⟩ := statements_sound hbegin.complete hrun
  obtain ⟨t', n₃, hexpect', h₃⟩ := bind_eq_ok_iff.mp h₂
  have hend := took_expect htook.complete rfl hexpect'
  obtain ⟨t'', n₄, hmark, h₄⟩ := bind_eq_ok_iff.mp h₃
  obtain ⟨hkind, rfl⟩ := expect_end_eq_ok hmark
  cases h₄
  have hall := hbegin.trans (htook.append hend)
  refine ⟨b, hall.passes, hall.fits, hv, (Grammar.cover_nil_iff _).mp hall.covered, ?_, hkind⟩
  rw [hbares, hbegin.declared]
  rfl

end Parsing

end Bukvar
