import Bukvar.Proofs.Parsing.Endings

/-!
# Open blocks and announced variables

The blocks that are open behind some tokens can be seen from the tokens alone (`openBlocks`): the
word that opens a block is put on a stack and the word that closes one takes the topmost off. Only
the conditional needs care, since its word also continues a conditional that is already open. In the
same way the variables that were declared can be seen, as names behind the words of types
(`Announces`).

`Watched` says what holds wherever a statement can start: which blocks are open, and that the
announced variables are known. Between the two words of an arm and between the word of a type and
its name no statement can start, and these pairs of tokens are passed at once.

* `Watched.pass`, `Watched.opens`, `Watched.closes`: single tokens.
* `Watched.elseIf`, `Watched.announce`: pairs.
* `Watched.inline`: whole expressions.
-/

namespace Bukvar

open Token (Kind Stream)

/-! ## The stack of open blocks -/

/-- What is known behind some tokens about the blocks around. -/
structure Nesting where
  /-- The words that opened the blocks which are still open, the innermost first. -/
  blocks : List Token
  /-- Whether the last token could make a conditional continue an open one. -/
  afterElse : Bool

/-- One more token. -/
def Nesting.pass (n : Nesting) (t : Token) : Nesting where
  blocks :=
    match t.kind with
    | .loopBegin => t :: n.blocks
    | .ifWord => if n.afterElse then n.blocks else t :: n.blocks
    | .endIf | .loopEnd => n.blocks.tail
    | _ => n.blocks
  afterElse := t.kind = .elseWord

/-- What the tokens say about the blocks around. -/
def nestingOf (ts : List Token) : Nesting :=
  ts.foldl Nesting.pass ⟨[], false⟩

/-- The words of the blocks that the tokens leave open, the innermost first. -/
def openBlocks (ts : List Token) : List Token :=
  (nestingOf ts).blocks

/-- Directly behind the word of a type the name occurs. -/
def Announces (name : String) (ts : List Token) : Prop :=
  ∃ front word id back, ts = front ++ word :: id :: back ∧ word.kind.isTypeWord = true ∧
    id.kind = .name ∧ id.text = name

variable {ts : List Token} {t : Token} {name : String}

theorem nestingOf_append_singleton (ts : List Token) (t : Token) :
    nestingOf (ts ++ [t]) = (nestingOf ts).pass t := by
  rw [nestingOf, List.foldl_append]
  rfl

/-- The kinds of tokens that neither concern blocks nor announce variables. -/
def Token.Kind.isPlain : Kind → Bool
  | .loopBegin | .loopEnd | .ifWord | .elseWord | .endIf | .typeWord _ | .endOfInput => false
  | _ => true

theorem Token.Kind.isPlain_of_isInline {kind : Kind} (h : kind.isInline = true) :
    kind.isPlain = true := by
  cases kind <;> first | rfl | cases h

theorem Nesting.blocks_pass (n : Nesting) (h : t.kind.isPlain = true) :
    (n.pass t).blocks = n.blocks := by
  unfold pass
  cases hkind : t.kind <;> first | rfl | (rw [hkind] at h; cases h)

/-- A name is announced by its token, or it was announced before. -/
theorem Announces.of_append_singleton (h : Announces name (ts ++ [t])) :
    Announces name ts ∨
      (∃ word ∈ ts.getLast?, word.kind.isTypeWord = true) ∧ t.kind = .name ∧ t.text = name := by
  obtain ⟨front, word, id, back, heq, hword, hid, hname⟩ := h
  rcases List.eq_nil_or_concat back with rfl | ⟨back, last, rfl⟩
  · have heq' : ts ++ [t] = (front ++ [word]) ++ [id] := by simpa using heq
    obtain ⟨rfl, ht⟩ := List.append_inj' heq' rfl
    cases ht
    exact .inr ⟨⟨word, by simp, hword⟩, hid, hname⟩
  · have heq' : ts ++ [t] = (front ++ word :: id :: back) ++ [last] := by simpa using heq
    obtain ⟨rfl, -⟩ := List.append_inj' heq' rfl
    exact .inl ⟨front, word, id, back, rfl, hword, hid, hname⟩

/-! ## Where statements start -/

namespace Token.Stream

variable {s : Stream}

/-- The mark at the end has not been passed. -/
structure Inside (s : Stream) : Prop where
  lt : s.cursor < s.tokens.size
  ended : s.last.kind = .endOfInput

theorem Inside.step (h : s.Inside) (hend : s.current.kind ≠ .endOfInput) : s.step.Inside := by
  refine ⟨?_, h.ended⟩
  apply Nat.lt_of_not_le
  intro hle
  have hlt := h.lt
  have hlast := s.getElem?_last
  change s.tokens.size ≤ s.cursor + 1 at hle
  rw [show s.tokens.size - 1 = s.cursor by omega, getElem?_current hlt, Option.some.injEq] at hlast
  exact hend (hlast ▸ h.ended)

end Token.Stream

/-- A statement can start in the stream: the given blocks are open, and of the variables that the
tokens announce each is known. -/
structure Watched (blocks : List Token) (known : List (String × VarType)) (s : Stream) : Prop where
  inside : s.Inside
  blocks : openBlocks s.behind = blocks
  /-- A conditional would not continue another one. -/
  fresh : (nestingOf s.behind).afterElse = true → s.current.kind ≠ .ifWord
  /-- A name would not be announced. -/
  settled : ∀ word ∈ s.behind.getLast?, word.kind.isTypeWord = false
  known : ∀ name, Announces name s.behind → (known.lookup name).isSome = true

namespace Watched

variable {blocks : List Token} {known : List (String × VarType)} {s : Stream}

/-- One token that announces nothing. -/
theorem step (h : Watched blocks known s) {opened : List Token}
    (hend : s.current.kind ≠ .endOfInput) (htype : s.current.kind.isTypeWord = false)
    (hblocks : ((nestingOf s.behind).pass s.current).blocks = opened)
    (hfresh : s.current.kind = .elseWord → s.step.current.kind ≠ .ifWord) :
    Watched opened known s.step := by
  have hbehind := Stream.behind_step h.inside.lt
  have hnesting : nestingOf s.step.behind = (nestingOf s.behind).pass s.current := by
    rw [hbehind, nestingOf_append_singleton]
  refine ⟨h.inside.step hend, ?_, ?_, ?_, ?_⟩
  · rw [openBlocks, hnesting, hblocks]
  · intro helse
    rw [hnesting] at helse
    exact hfresh (of_decide_eq_true helse)
  · intro word hword
    rw [hbehind, List.getLast?_concat, Option.mem_some] at hword
    rwa [← hword]
  · intro name hname
    rw [hbehind] at hname
    rcases hname.of_append_singleton with hname | ⟨⟨word, hlast, hword⟩, -⟩
    · exact h.known name hname
    · rw [h.settled word hlast] at hword
      cases hword

theorem pass (h : Watched blocks known s) (hplain : s.current.kind.isPlain = true) :
    Watched blocks known s.step := by
  refine h.step ?_ ?_ ?_ ?_
  · intro hkind
    rw [hkind] at hplain
    cases hplain
  · cases hkind : s.current.kind <;> first | rfl | (rw [hkind] at hplain; cases hplain)
  · exact ((nestingOf s.behind).blocks_pass hplain).trans h.blocks
  · intro hkind
    rw [hkind] at hplain
    cases hplain

theorem opens (h : Watched blocks known s)
    (hkind : s.current.kind = .ifWord ∨ s.current.kind = .loopBegin) :
    Watched (s.current :: blocks) known s.step := by
  have hopened := h.blocks
  rcases hkind with hkind | hkind
  · refine h.step (by simp [hkind]) (by simp [hkind, Kind.isTypeWord]) ?_ (by simp [hkind])
    have hfresh : (nestingOf s.behind).afterElse = false := by
      rw [Bool.eq_false_iff]
      intro helse
      exact h.fresh helse hkind
    rw [openBlocks] at hopened
    simp only [Nesting.pass, hkind, hfresh, hopened, Bool.false_eq_true, if_false]
  · refine h.step (by simp [hkind]) (by simp [hkind, Kind.isTypeWord]) ?_ (by simp [hkind])
    rw [openBlocks] at hopened
    simp only [Nesting.pass, hkind, hopened]

theorem closes (h : Watched (t :: blocks) known s)
    (hkind : s.current.kind = .endIf ∨ s.current.kind = .loopEnd) :
    Watched blocks known s.step := by
  have hopened := h.blocks
  rw [openBlocks] at hopened
  rcases hkind with hkind | hkind
  · refine h.step (by simp [hkind]) (by simp [hkind, Kind.isTypeWord]) ?_ (by simp [hkind])
    simp only [Nesting.pass, hkind, hopened, List.tail_cons]
  · refine h.step (by simp [hkind]) (by simp [hkind, Kind.isTypeWord]) ?_ (by simp [hkind])
    simp only [Nesting.pass, hkind, hopened, List.tail_cons]

/-- The word before the last arm of a conditional. -/
theorem otherwise (h : Watched blocks known s) (helse : s.current.kind = .elseWord)
    (hif : s.step.current.kind ≠ .ifWord) : Watched blocks known s.step := by
  refine h.step (by simp [helse]) (by simp [helse, Kind.isTypeWord]) ?_ fun _ => hif
  have hopened := h.blocks
  rw [openBlocks] at hopened
  simp only [Nesting.pass, helse, hopened]

/-- Two tokens at once, between which no statement can start. -/
theorem step_step (h : Watched blocks known s) (hfirst : s.current.kind ≠ .endOfInput)
    (hsecond : s.step.current.kind ≠ .endOfInput) :
    s.step.step.Inside ∧ s.step.step.behind = s.behind ++ [s.current] ++ [s.step.current] := by
  have hinside := h.inside.step hfirst
  exact ⟨hinside.step hsecond,
    by rw [Stream.behind_step hinside.lt, Stream.behind_step h.inside.lt]⟩

/-- The words before an arm with a condition. -/
theorem elseIf (h : Watched blocks known s) (helse : s.current.kind = .elseWord)
    (hif : s.step.current.kind = .ifWord) : Watched blocks known s.step.step := by
  obtain ⟨hinside, hbehind⟩ := h.step_step (by simp [helse]) (by simp [hif])
  refine ⟨hinside, ?_, ?_, ?_, ?_⟩
  · have hopened := h.blocks
    rw [openBlocks] at hopened ⊢
    rw [hbehind, nestingOf_append_singleton, nestingOf_append_singleton]
    simp only [Nesting.pass, hif, helse, hopened, decide_true, if_true]
  · intro hafter
    rw [hbehind, nestingOf_append_singleton, Nesting.pass, hif] at hafter
    cases hafter
  · intro word hword
    rw [hbehind, List.getLast?_concat, Option.mem_some] at hword
    rw [← hword, hif]
    rfl
  · intro name hname
    rw [hbehind] at hname
    rcases hname.of_append_singleton with hname | ⟨-, hkind, -⟩
    · rcases hname.of_append_singleton with hname | ⟨-, hkind, -⟩
      · exact h.known name hname
      · rw [helse] at hkind
        cases hkind
    · rw [hif] at hkind
      cases hkind

/-- The word of a type and the variable that it announces. -/
theorem announce (h : Watched blocks known s) {type : VarType}
    (htype : s.current.kind = .typeWord type) (hname : s.step.current.kind = .name) :
    Watched blocks ((s.step.current.text, type) :: known) s.step.step := by
  obtain ⟨hinside, hbehind⟩ := h.step_step (by simp [htype]) (by simp [hname])
  refine ⟨hinside, ?_, ?_, ?_, ?_⟩
  · have hopened := h.blocks
    rw [openBlocks] at hopened ⊢
    rw [hbehind, nestingOf_append_singleton, nestingOf_append_singleton]
    simp only [Nesting.pass, htype, hname, hopened]
  · intro hafter
    rw [hbehind, nestingOf_append_singleton, Nesting.pass, hname] at hafter
    cases hafter
  · intro word hword
    rw [hbehind, List.getLast?_concat, Option.mem_some] at hword
    rw [← hword, hname]
    rfl
  · intro other hother
    rw [hbehind] at hother
    rw [List.lookup_cons]
    rcases hother.of_append_singleton with hother | ⟨-, -, rfl⟩
    · rcases hother.of_append_singleton with hother | ⟨-, hkind, -⟩
      · have hknown := h.known other hother
        split
        · rfl
        · exact hknown
      · rw [htype] at hkind
        cases hkind
    · rw [beq_self_eq_true]
      rfl

theorem inline {m n : Parsing.State} (h : Watched blocks known m.stream)
    (hinline : Parsing.Inline m n) : Watched blocks known n.stream := by
  induction hinline with
  | refl m => exact h
  | step _ hkind _ ih => exact ih (h.pass (Kind.isPlain_of_isInline hkind))

end Watched

end Bukvar
