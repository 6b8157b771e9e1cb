import Bukvar.Proofs.Parsing.Termination

/-!
# Parsing is local

An answer depends on the tokens up to one place behind the last cursor, and on nothing that follows.
In particular the first problem of a stream stays its first problem, with the same place and cause,
whatever is changed further on.

* `parse_eq_of_agree`: both answers of a parser on two buffers that agree so far.
* `problem_local`: problems of programs.
-/

namespace Bukvar.Parsing

open Token (Buffer Stream)

variable {α : Type} {a b : Buffer}

theorem parse_buffer_eq {parser : Parser α} {buffer : Buffer} {s : Stream}
    (hs : buffer.stream? = some s) :
    (parse parser buffer).buffer = (endOf (parser ⟨s, []⟩)).stream.buffer := by
  cases hrun : parser ⟨s, []⟩ with
  | ok value n => rw [parse_of_ok hs hrun, endOf]
  | error e n => rw [parse_of_error hs hrun, endOf]

/-- Two buffers that agree up to one place behind the cursor at which a parser left the first one.
It leaves the second one at the same place with the same answer. -/
theorem parse_eq_of_agree {parser : Parser α} {Q : α → State → Prop}
    (hparallel : InStep .any parser parser) (hsafe : ∀ m, Safe (·.hi < Span.limit) parser m Q)
    (ha : 0 < a.tokens.size) (hb : 0 < b.tokens.size)
    (hneara : ∀ t ∈ a.tokens, t.span.hi < Span.limit)
    (hnearb : ∀ t ∈ b.tokens, t.span.hi < Span.limit) (hcursor : a.cursor = b.cursor)
    (hagree : ∀ i ≤ (parse parser a).buffer.cursor + 1, a.tokens[i]? = b.tokens[i]?) :
    (parse parser b).outcome = (parse parser a).outcome ∧
      (parse parser b).buffer.cursor = (parse parser a).buffer.cursor := by
  obtain ⟨s, hs, htokensa, hcursora⟩ := Buffer.exists_stream ha
  obtain ⟨t, ht, htokensb, hcursorb⟩ := Buffer.exists_stream hb
  have hfueleda := (hsafe ⟨s, []⟩ (spanned_of_near (htokensa ▸ hneara))).fueled
  have hfueledb := (hsafe ⟨t, []⟩ (spanned_of_near (htokensb ▸ hnearb))).fueled
  have hshared : Shared ((endOf (parser ⟨s, []⟩)).stream.cursor + 1) ⟨s, []⟩ ⟨t, []⟩ := by
    rw [parse_buffer_eq hs] at hagree
    refine ⟨?_, by rw [hcursora, hcursorb, hcursor], rfl⟩
    intro i hi
    rw [htokensa, htokensb]
    exact hagree i hi
  have hsame := hparallel.sameRun (fun _ _ => trivial) hshared (Nat.lt_succ_self _)
  generalize (endOf (parser ⟨s, []⟩)).stream.cursor + 1 = k at hsame
  cases hruna : parser ⟨s, []⟩ with
  | ok value n =>
    rw [hruna] at hsame
    generalize hrunb : parser ⟨t, []⟩ = r at hsame hfueledb
    cases hsame with
    | ok h =>
      rw [parse_of_ok hs hruna, parse_of_ok ht hrunb]
      exact ⟨rfl, h.cursor.symm⟩
    | noFuelRight => exact hfueledb.elim
  | error e n =>
    rw [hruna] at hsame hfueleda
    generalize hrunb : parser ⟨t, []⟩ = r at hsame hfueledb
    cases hsame with
    | error h =>
      rw [parse_of_error hs hruna, parse_of_error ht hrunb]
      exact ⟨rfl, h.cursor.symm⟩
    | noFuelLeft => exact hfueleda.elim
    | noFuelRight => exact hfueledb.elim

/-- The first problem of a program wins: nothing that stands more than one token behind the place
where the parser stopped changes or hides it. -/
theorem problem_local (a b : Buffer) (ha : 0 < a.tokens.size) (hb : 0 < b.tokens.size)
    (hneara : ∀ t ∈ a.tokens, t.span.hi < Span.limit)
    (hnearb : ∀ t ∈ b.tokens, t.span.hi < Span.limit) (hcursor : a.cursor = b.cursor)
    (failure : Failure) (hfailure : (parseProgram a).outcome = .error failure)
    (hagree : ∀ i ≤ (parseProgram a).buffer.cursor + 1, a.tokens[i]? = b.tokens[i]?) :
    (parseProgram b).outcome = .error failure ∧
      (parseProgram b).buffer.cursor = (parseProgram a).buffer.cursor := by
  rw [← hfailure]
  exact parse_eq_of_agree parallel_program (fun _ => safe_program) ha hb hneara hnearb hcursor
    hagree

/-- A name that no assignment sign follows, as the token behind it shows. -/
def bareName (rest : Array Token) : Buffer where
  tokens := #[⟨.programBegin, "начало", .empty 0⟩, ⟨.name, "x", .empty 7⟩,
    ⟨.integerLiteral, "5", .empty 9⟩] ++ rest
  cursor := 0

/-- What follows the number does not matter, with or without a mark at the end. -/
theorem problem_local_bareName :
    (parseProgram (bareName #[⟨.semicolon, ";", .empty 10⟩, ⟨.loopEnd, "кц", .empty 12⟩])).outcome =
        .error (.problem ⟨.empty 9, .unexpected .integerLiteral (.operator .assign)⟩) ∧
      (parseProgram
        (bareName #[⟨.semicolon, ";", .empty 10⟩, ⟨.loopEnd, "кц", .empty 12⟩])).buffer.cursor =
          1 := by
  refine problem_local (bareName #[.endOfInput 10]) _ ?_ ?_ ?_ ?_ rfl _ ?_ ?_
  · decide
  · decide
  · decide
  · decide
  · rfl
  · decide

end Bukvar.Parsing
