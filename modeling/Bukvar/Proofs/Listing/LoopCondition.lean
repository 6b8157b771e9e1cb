import Bukvar.Proofs.Diagnostic.Blame
import Bukvar.Proofs.Listing.ExpressionRoundTrip
import Bukvar.Proofs.Listing.Lines

/-!
# The conditions of counted loops

A counted loop is written as a loop over a counter that is compared with the count. The count is
written there as if it stood alone. That is enough for all counts but assignments: these have no
parentheses when they stand alone, and behind the comparison the sign of the assignment would assign
to the comparison. Every other count is a leaf or has parentheses already.

* `header_mem_blockLines`: each counted loop of a program has its header in the listing.
* `expression_rejects_target`: what is compared cannot be assigned to.
* `conditionText_read`: the conditions that are read back, and the ones that are not.
-/

namespace Bukvar

open Token (Buffer Kind Stream classify units)
open Grammar (Symbol symbol Derivation)

/-! ## Assignments to comparisons -/

namespace Parsing

variable {ds : List (String × VarType)}

/-- Behind a comparison or what is no weaker the sign of an assignment assigns to all of it, and
only a name can be assigned. -/
theorem expression_rejects_target (d : Derivation .comparison) {s s' : Stream} (hnear : s.Near)
    (h : Passes s d.word s') (hfits : ∀ x ∈ d.word, x.Fits) (hident : d.tree.isIdent = false)
    (hnext : s'.current.kind = .operator .assign) :
    ∃ span n, expression ⟨s, ds⟩ = .error (.problem ⟨span, .assignmentTarget⟩) n := by
  have hlen := h.length_le
  have hclosed : Closed .comparison s' := by
    intro op hop
    rw [hnext, Kind.operator.injEq] at hop
    subst hop
    decide
  obtain ⟨e, fuel, hfuel, hbare, -, hrun⟩ :=
    readAt_word d 0 ds (s.remaining + 1) 0 s s' (.of_near hnear _) h hclosed (admits_zero _) hfits
      (by omega)
  obtain ⟨k, rfl⟩ : ∃ k, fuel = k + 1 := ⟨fuel - 1, by omega⟩
  obtain ⟨rest, hahead⟩ := exists_ahead h.complete_right
  have hne : s'.current.kind ≠ .endOfInput := by
    rw [hnext]
    exact nofun
  have htarget : ¬ e.isIdent = true := by
    rw [← Expr.isIdent_bare, hbare, hident]
    decide
  refine ⟨e.span, ⟨s'.step, ds⟩, ?_⟩
  change expressionWithin (s.remaining + 1) 0 ⟨s, ds⟩ = _
  rw [hrun, operatorsWithin_succ, bind_of_ok (run_current hahead)]
  simp only [hnext]
  rw [if_neg (Nat.not_lt_zero _), bind_of_ok (run_advance hahead hne), joined]
  dsimp only
  rw [if_pos ⟨rfl, htarget⟩]
  rfl

end Parsing

namespace Listing

open Layout (Line)

/-! ## Counters -/

theorem toList_counterName (enclosing : Nat) :
    (counterName enclosing).toList = '_' :: 'i' :: Decimal.digits (enclosing + 1) := by
  simp [counterName]

theorem isAtom_counterName (enclosing : Nat) : Token.IsAtom (counterName enclosing).toList := by
  rw [toList_counterName]
  refine .word nofun ?_
  intro c hc
  rcases List.mem_cons.mp hc with rfl | hc
  · decide
  · rcases List.mem_cons.mp hc with rfl | hc
    · decide
    · exact Decimal.endsWord_of_isNumeric (Decimal.isNumeric_of_mem_digits hc)

theorem head?_fixedWords : ∀ p ∈ Token.fixedWords, p.1.toList.head? ≠ some '_' := by
  decide

/-- A unit that starts with an underscore is no fixed word and no literal. -/
theorem classify_underscore {unit : String} {cs : List Char} (h : unit.toList = '_' :: cs) :
    classify unit = .name := by
  have hdouble : Token.isDouble ('_' :: cs) = false := by
    rw [← Bool.not_eq_true]
    intro hshape
    have := Token.isDigit_of_isDouble hshape (List.mem_cons_self ..) (by decide) (by decide)
    cases this
  have hclassified := Token.classified_classify unit
  generalize classify unit = kind at hclassified ⊢
  cases hclassified with
  | fixed hword =>
    have hhead := head?_fixedWords _ hword
    rw [h] at hhead
    exact absurd rfl hhead
  | literal hshape =>
    rw [h] at hshape
    rcases Token.shape_cases hshape with ⟨-, hs⟩ | ⟨-, -, hs⟩ | ⟨-, -, -, hs⟩
    · simp [Token.isInteger, Token.withoutMinus, Token.isDigits] at hs
    · rw [hdouble] at hs
      cases hs
    · cases hs
  | @punctuation p hp hunit =>
    have hhead : ∀ q ∈ Token.punctuation, q.1 ≠ '_' := by decide
    rw [h, List.cons.injEq] at hunit
    exact absurd hunit.1.symm (hhead p hp)
  | name => rfl

theorem classify_counterName (enclosing : Nat) : classify (counterName enclosing) = .name :=
  classify_underscore (toList_counterName enclosing)

/-! ## Counted loops of a program -/

/-- A counted loop, with the number of counted loops around it. -/
structure CountedLoop where
  enclosing : Nat
  count : Expr

namespace CountedLoop

/-- The variable that counts the rounds. -/
def counter (l : CountedLoop) : String :=
  counterName l.enclosing

/-- What is tested before every round. -/
def conditionText (l : CountedLoop) : String :=
  l.counter ++ " < " ++ exprText l.count

/-- The line that starts the loop. -/
def header (l : CountedLoop) : String :=
  "for (int " ++ l.counter ++ " = 0; " ++ l.conditionText ++ "; " ++ l.counter ++ "++)"

theorem header_eq (l : CountedLoop) : l.header = forText l.counter (exprText l.count) := by
  unfold header conditionText forText
  simp only [String.append_assoc]

end CountedLoop

mutual

/-- The counted loops of a statement inside the given number of them. -/
def stmtLoops (enclosing : Nat) : Stmt → List CountedLoop
  | .branch _ body arms => blockLoops enclosing body ++ armsLoops enclosing arms
  | .counted count body => ⟨enclosing, count⟩ :: blockLoops (enclosing + 1) body
  | .loop _ body _ => blockLoops enclosing body
  | .declare .. | .assign _ | .write _ | .read .. | .giveBack _ => []

/-- The counted loops of the arms of a conditional. -/
def armsLoops (enclosing : Nat) : Arms → List CountedLoop
  | .done => []
  | .otherwise body => blockLoops enclosing body
  | .elseIf _ body rest => blockLoops enclosing body ++ armsLoops enclosing rest

/-- The counted loops of a block. -/
def blockLoops (enclosing : Nat) : List Stmt → List CountedLoop
  | [] => []
  | stmt :: rest => stmtLoops enclosing stmt ++ blockLoops enclosing rest

end

variable {l : CountedLoop}

mutual

theorem count_mem_exprs {n : Nat} {s : Stmt} (h : l ∈ stmtLoops n s) : l.count ∈ s.exprs := by
  cases s with
  | branch condition body arms =>
    rcases List.mem_append.mp h with h | h
    · exact List.mem_cons_of_mem _ (List.mem_append_left _ (count_mem_blockExprs h))
    · exact List.mem_cons_of_mem _ (List.mem_append_right _ (count_mem_armsExprs h))
  | counted count body =>
    rcases List.mem_cons.mp h with rfl | h
    · exact List.mem_cons_self ..
    · exact List.mem_cons_of_mem _ (count_mem_blockExprs h)
  | loop condition body test => exact List.mem_cons_of_mem _ (count_mem_blockExprs h)
  | _ => cases h

theorem count_mem_armsExprs {n : Nat} {a : Arms} (h : l ∈ armsLoops n a) : l.count ∈ a.exprs := by
  cases a with
  | done => cases h
  | otherwise body => exact count_mem_blockExprs h
  | elseIf condition body rest =>
    rcases List.mem_append.mp h with h | h
    · exact List.mem_cons_of_mem _ (List.mem_append_left _ (count_mem_blockExprs h))
    · exact List.mem_cons_of_mem _ (List.mem_append_right _ (count_mem_armsExprs h))

theorem count_mem_blockExprs {n : Nat} {b : List Stmt} (h : l ∈ blockLoops n b) :
    l.count ∈ blockExprs b := by
  cases b with
  | nil => cases h
  | cons s rest =>
    rcases List.mem_append.mp h with h | h
    · exact List.mem_append_left _ (count_mem_exprs h)
    · exact List.mem_append_right _ (count_mem_blockExprs h)

end

/-- The texts of lines, without their depths. -/
def contents (lines : List Line) : List String :=
  lines.map Line.content

theorem mem_contents_append {text : String} {as bs : List Line}
    (h : text ∈ contents as ∨ text ∈ contents bs) : text ∈ contents (as ++ bs) := by
  rw [contents, List.map_append]
  exact List.mem_append.mpr h

theorem mem_contents_braced {text : String} {depth : Nat} {body : List Line}
    (h : text ∈ contents body) : text ∈ contents (braced depth body) :=
  List.mem_cons_of_mem _ (mem_contents_append (.inl h))

variable {intMain : Bool}

mutual

theorem header_mem_stmtLines {n depth : Nat} {s : Stmt} (h : l ∈ stmtLoops n s) :
    l.header ∈ contents (stmtLines intMain depth n s) := by
  cases s with
  | branch condition body arms =>
    rcases List.mem_append.mp h with h | h
    · refine List.mem_cons_of_mem _ (mem_contents_append (.inl ?_))
      exact mem_contents_braced (header_mem_blockLines h)
    · exact List.mem_cons_of_mem _ (mem_contents_append (.inr (header_mem_armsLines h)))
  | counted count body =>
    rcases List.mem_cons.mp h with rfl | h
    · rw [CountedLoop.header_eq]
      exact List.mem_cons_self ..
    · exact List.mem_cons_of_mem _ (mem_contents_braced (header_mem_blockLines h))
  | loop condition body test =>
    cases test with
    | pre => exact List.mem_cons_of_mem _ (mem_contents_braced (header_mem_blockLines h))
    | post =>
      refine List.mem_cons_of_mem _ (mem_contents_append (.inl ?_))
      exact mem_contents_braced (header_mem_blockLines h)
  | _ => cases h

theorem header_mem_armsLines {n depth : Nat} {a : Arms} (h : l ∈ armsLoops n a) :
    l.header ∈ contents (armsLines intMain depth n a) := by
  cases a with
  | done => cases h
  | otherwise body =>
    cases body with
    | nil => cases h
    | cons s rest => exact List.mem_cons_of_mem _ (mem_contents_braced (header_mem_blockLines h))
  | elseIf condition body rest =>
    rcases List.mem_append.mp h with h | h
    · refine List.mem_cons_of_mem _ (mem_contents_append (.inl ?_))
      exact mem_contents_braced (header_mem_blockLines h)
    · exact List.mem_cons_of_mem _ (mem_contents_append (.inr (header_mem_armsLines h)))

theorem header_mem_blockLines {n depth : Nat} {b : List Stmt} (h : l ∈ blockLoops n b) :
    l.header ∈ contents (blockLines intMain depth n b) := by
  cases b with
  | nil => cases h
  | cons s rest =>
    rcases List.mem_append.mp h with h | h
    · exact mem_contents_append (.inl (header_mem_stmtLines h))
    · exact mem_contents_append (.inr (header_mem_blockLines h))

end

theorem header_mem_lines {p : Program} (h : l ∈ blockLoops 0 p) (options : Options) :
    l.header ∈ contents (lines options p) := by
  refine mem_contents_append (.inr (mem_contents_braced (List.mem_cons_of_mem _ ?_)))
  exact mem_contents_braced (mem_contents_append (.inl (header_mem_blockLines h)))

/-! ## Conditions -/

section

variable {named : String → Prop}

/-- The symbols of a condition: the counter, the sign and the symbols of the count. -/
theorem symbols_conditionText (hnamed : ∀ n, named n → Token.IsAtom n.toList)
    (he : l.count.Legible named) :
    (units l.conditionText.toList).map unitSymbol =
      ⟨.name, l.counter⟩ :: .mark (.operator .less) :: (exprUnits l.count).map unitSymbol := by
  have htext : l.conditionText.toList = l.counter.toList ++ ' ' ::
      (Operator.less.symbol.toList ++ ' ' :: ((exprText l.count).toList ++ [])) := by
    simp [CountedLoop.conditionText, Operator.symbol]
  have hatom : Token.IsAtom l.counter.toList := isAtom_counterName _
  have hcounter : unitSymbol l.counter.toList = ⟨.name, l.counter⟩ :=
    unitSymbol_name (classify_counterName _)
  have hsign : unitSymbol Operator.less.symbol.toList = .mark (.operator .less) :=
    ownReading.symbolOf_sign .less
  rw [htext, Token.units_atom hatom (Token.separated_cons (by decide) _), units_sign,
    units_exprText hnamed he Token.separated_nil, Token.units_nil, List.append_nil,
    List.map_cons, List.map_cons, hcounter, hsign]

/-- A count that is no assignment is a primary, and so the right side of the comparison. -/
theorem parse_conditionText (hnamed : ∀ n, named n → Token.IsAtom n.toList)
    (hclass : ∀ n, named n → classify n = .name) (he : l.count.Legible named)
    (hdoubles : ∀ x ∈ l.count.doubles, Token.isDouble x.text.toList = true)
    (hcount : isAssignment l.count = false)
    (hsize : l.conditionText.utf8ByteSize < Span.limit) :
    ∃ buffer e, Buffer.ofSource l.conditionText = .ok buffer ∧
      (Parsing.parseExpression buffer).outcome = .ok e ∧
      e.bare = .binary .less (.ident ⟨l.counter, .empty 0⟩ (.empty 0)) l.count.bare (.empty 0) := by
  obtain ⟨d, hword, htree⟩ :=
    (Reading.exists_derivation he (covers_ownReading hclass he hdoubles)).2 hcount
  rw [tree_ownReading he] at htree
  obtain ⟨d', hword', htree'⟩ := @exists_operation .less nofun (.name l.counter) d
  rw [htree] at htree'
  have hlegible : d'.tree.Legible fun _ => True := by
    rw [htree']
    exact ⟨trivial, (Expr.legible_bare.mpr he).rename fun _ _ _ => trivial, nofun⟩
  have hsymbols : d'.word = (units l.conditionText.toList).map unitSymbol := by
    rw [hword', hword, symbols_conditionText hnamed he]
    rfl
  obtain ⟨buffer, e, hbuffer, hrun, hbare⟩ := parseExpression_of_word hsymbols hlegible hsize
  exact ⟨buffer, e, hbuffer, hrun, hbare.trans htree'⟩

/-- A count that is an assignment starts with the name that is assigned, which becomes the right
side of the comparison. -/
theorem reject_conditionText (hnamed : ∀ n, named n → Token.IsAtom n.toList)
    (hclass : ∀ n, named n → classify n = .name) (he : l.count.Legible named)
    (hcount : isAssignment l.count = true)
    (hsize : l.conditionText.utf8ByteSize < Span.limit) :
    ∃ buffer span, Buffer.ofSource l.conditionText = .ok buffer ∧
      (Parsing.parseExpression buffer).outcome = .error (.problem ⟨span, .assignmentTarget⟩) := by
  obtain ⟨name, value, hsymbols⟩ : ∃ name value,
      (exprUnits l.count).map unitSymbol =
        ⟨.name, name⟩ :: .mark (.operator .assign) :: value := by
    generalize l.count = count at he hcount
    cases count with
    | binary op lhs rhs span =>
      cases op with
      | assign =>
        have hident := he.2.2 rfl
        cases lhs with
        | ident id idSpan =>
          have hname := unitSymbol_name (hclass _ he.1)
          have hsign : unitSymbol ['='] = .mark (.operator .assign) :=
            ownReading.symbolOf_sign .assign
          refine ⟨id.name, (exprUnits rhs).map unitSymbol, ?_⟩
          change List.map unitSymbol (id.name.toList :: ['='] :: exprUnits rhs) = _
          rw [List.map_cons, List.map_cons, hname, hsign]
        | _ => cases hident
      | _ => cases hcount
    | _ => cases hcount
  -- The comparison that is read before the sign of the assignment.
  let d : Derivation .comparison :=
    .compare (.ofProduct (.ofPrimary (.name l.counter))) .less rfl
      (.ofProduct (.ofPrimary (.name name)))
  obtain ⟨buffer, s, ts, hbuffer, hstream, hnear, hc, hahead, hts⟩ := exists_stream_of_text hsize
  have hword : ts.map symbol = d.word ++ .mark (.operator .assign) :: value := by
    rw [hts, symbols_conditionText hnamed he, hsymbols]
    rfl
  have hpasses := (Passes.front hc hahead (List.cons_ne_nil _ [])).1
  rw [hword] at hpasses
  obtain ⟨m, hleft, hright⟩ := hpasses.split
  obtain ⟨t, rest, hm, ht, -⟩ := hright.uncons
  have hnext : m.current.kind = .operator .assign := by
    rw [Stream.current_of_ahead hm]
    exact congrArg Symbol.kind ht
  have hfits : ∀ x ∈ d.word, x.Fits :=
    @Grammar.Derivation.fits_word (fun _ => True) _ d ⟨trivial, trivial, nofun⟩
  obtain ⟨span, n, hrun⟩ :=
    @Parsing.expression_rejects_target [] d s m hnear hleft hfits rfl hnext
  have honly : Parsing.expressionOnly ⟨s, []⟩ =
      .error (.problem ⟨span, .assignmentTarget⟩) n := by
    change EStateM.bind Parsing.expression _ _ = _
    unfold EStateM.bind
    rw [hrun]
  refine ⟨buffer, span, hbuffer, ?_⟩
  rw [Parsing.parseExpression, Parsing.parse_of_error hstream honly]

end

/-- Every counted loop of a program that was read, provided that no name in its count starts with a
quote and its floating-point numbers are written without a power of ten. Its header is in the
listing. The condition of the header is read back as the comparison of the counter with the count,
unless the count is an assignment: then it is rejected. -/
theorem conditionText_read {c : Compiler} {source : String} {p : Program} {l : CountedLoop}
    (hparse : (c.parse source).outcome = .done p) (hloop : l ∈ blockLoops 0 p)
    (hnames : ∀ n ∈ l.count.names, n.toList.head? ≠ some '"')
    (hdoubles : ∀ x ∈ l.count.doubles, Token.isDouble x.text.toList = true)
    (hsize : l.conditionText.utf8ByteSize < Span.limit) :
    (∃ ls, (c.compile source).outcome = .done (Layout.render c.options.indent ls) ∧
        l.header ∈ contents ls) ∧
      ∃ buffer, Buffer.ofSource l.conditionText = .ok buffer ∧
        (isAssignment l.count = false → ∃ e, (Parsing.parseExpression buffer).outcome = .ok e ∧
          e.bare =
            .binary .less (.ident ⟨l.counter, .empty 0⟩ (.empty 0)) l.count.bare (.empty 0)) ∧
        (isAssignment l.count = true → ∃ span, (Parsing.parseExpression buffer).outcome =
          .error (.problem ⟨span, .assignmentTarget⟩)) := by
  obtain ⟨ts, htokens, -, hlegible⟩ := Compiler.legible_of_parse hparse
  have hblock := hlegible (fun n => Token.IsUnit n.toList ∧ classify n = .name)
    fun t ht hkind => ⟨htokens.isUnit ht, (htokens.kinds t ht).symm.trans hkind⟩
  have hcount : l.count.Legible fun n => Token.IsAtom n.toList ∧ classify n = .name := by
    apply (legible_of_mem_blockExprs hblock (count_mem_blockExprs hloop)).rename
    rintro n hn ⟨hunit, hname⟩
    exact ⟨Token.isAtom_of_name hunit hname (hnames n hn), hname⟩
  constructor
  · refine ⟨lines c.options p, ?_, header_mem_lines hloop c.options⟩
    rw [Compiler.outcome_compile_of_parse hparse, generate_eq]
  · cases hassignment : isAssignment l.count with
    | false =>
      obtain ⟨buffer, e, hbuffer, hrun, hbare⟩ := parse_conditionText (fun _ h => h.1)
        (fun _ h => h.2) hcount hdoubles hassignment hsize
      exact ⟨buffer, hbuffer, fun _ => ⟨e, hrun, hbare⟩, nofun⟩
    | true =>
      obtain ⟨buffer, span, hbuffer, hrun⟩ := reject_conditionText (fun _ h => h.1)
        (fun _ h => h.2) hcount hassignment hsize
      exact ⟨buffer, hbuffer, nofun, fun _ => ⟨span, hrun⟩⟩

/-- A loop inside another one, with a comparison for its count. -/
theorem conditionText_read_compared :
    ∃ p l, ((Compiler.fresh {}).parse
        "начало нц 2 раз нц (a < 3) раз кц кц конец").outcome = .done p ∧
      l ∈ blockLoops 0 p ∧ l.header = "for (int _i2 = 0; _i2 < (a < 3); _i2++)" ∧
      ∃ buffer e, Buffer.ofSource "_i2 < (a < 3)" = .ok buffer ∧
        (Parsing.parseExpression buffer).outcome = .ok e ∧
        e.bare = .binary .less (.ident ⟨"_i2", .empty 0⟩ (.empty 0)) l.count.bare (.empty 0) := by
  have hloops : ((Compiler.fresh {}).parse
      "начало нц 2 раз нц (a < 3) раз кц кц конец").outcome.map (fun p =>
        (blockLoops 0 p).any fun l =>
          l.header = "for (int _i2 = 0; _i2 < (a < 3); _i2++)" && l.counter = "_i2" &&
            l.conditionText = "_i2 < (a < 3)" && l.count.names = ["a"] &&
            l.count.doubles = [] && !isAssignment l.count) = .done true := by
    decide +kernel
  obtain ⟨p, hparse, hp⟩ := Outcome.exists_of_map hloops
  obtain ⟨l, hloop, hl⟩ := List.any_eq_true.mp hp
  simp only [Bool.and_eq_true, decide_eq_true_eq, Bool.not_eq_true'] at hl
  obtain ⟨⟨⟨⟨⟨hheader, hcounter⟩, hcondition⟩, hnames⟩, hdoubles⟩, hcount⟩ := hl
  obtain ⟨-, buffer, hbuffer, hread, -⟩ :=
    conditionText_read hparse hloop (by rw [hnames]; decide) (by rw [hdoubles]; exact nofun)
      (by rw [hcondition]; decide)
  obtain ⟨e, hrun, hbare⟩ := hread hcount
  rw [hcondition] at hbuffer
  rw [hcounter] at hbare
  exact ⟨p, l, hparse, hloop, hheader, buffer, e, hbuffer, hrun, hbare⟩

/-- A loop with an assignment for its count, whose condition is not read. -/
theorem conditionText_assigned :
    ∃ p l, ((Compiler.fresh {}).parse "начало цел a; нц (a = 5) раз кц конец").outcome = .done p ∧
      l ∈ blockLoops 0 p ∧ (∀ n ∈ l.count.names, n.toList.head? ≠ some '"') ∧
      l.count.doubles = [] ∧ l.conditionText = "_i1 < a = 5" ∧
      ∀ buffer, Buffer.ofSource l.conditionText = .ok buffer →
        ∀ e, (Parsing.parseExpression buffer).outcome ≠ .ok e := by
  have hloops : ((Compiler.fresh {}).parse
      "начало цел a; нц (a = 5) раз кц конец").outcome.map (fun p =>
        (blockLoops 0 p).any fun l =>
          l.conditionText = "_i1 < a = 5" && l.count.names = ["a"] && l.count.doubles = []) =
        .done true := by
    decide +kernel
  have hunread : (Buffer.ofSource "_i1 < a = 5").toOption.map
      (fun buffer => (Parsing.parseExpression buffer).outcome.toOption) = some none := by
    decide +kernel
  obtain ⟨p, hparse, hp⟩ := Outcome.exists_of_map hloops
  obtain ⟨l, hloop, hl⟩ := List.any_eq_true.mp hp
  simp only [Bool.and_eq_true, decide_eq_true_eq] at hl
  obtain ⟨⟨hcondition, hnames⟩, hdoubles⟩ := hl
  refine ⟨p, l, hparse, hloop, by rw [hnames]; decide, hdoubles, hcondition, ?_⟩
  intro buffer hbuffer e he
  rw [← hcondition, hbuffer, Except.toOption, Option.map_some, he] at hunread
  cases hunread

end Listing

end Bukvar
