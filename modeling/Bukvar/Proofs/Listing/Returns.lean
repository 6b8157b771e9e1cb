import Bukvar.Proofs.Listing.Entries

/-!
# What `Main` returns

The type of `Main` is chosen before any line is written, by a search for a return with a value. The
search and the writer go through the program separately. `main_returns` says that they agree: either
`Main` and all returns in it have values, or none has.

* `getLast?_mainLines`: where `Main` returns a number, it ends with a return.
-/

namespace Bukvar.Listing

open Layout (Line)

/-! ## The lines -/

/-- Where `Main` returns a number, every return gives one. -/
theorem returnText_true (value : Option Expr) :
    returnText true value = "return " ++ value.elim "0" exprText ++ ";" := by
  cases value <;> rfl

theorem closingReturn_of_return {p : Program} {value : Option Expr}
    (h : p.getLast? = some (.giveBack value)) : closingReturn p = [] := by
  rw [closingReturn, h, Option.any_some, isReturn, Bool.not_true, Bool.and_false]
  rfl

theorem closingReturn_of_other {p : Program} (hvalue : returnsValue p = true)
    (h : ¬ ∃ value, p.getLast? = some (.giveBack value)) :
    closingReturn p = [⟨2, "return 0;"⟩] := by
  rw [← any_isReturn_iff, Bool.not_eq_true] at h
  rw [closingReturn, hvalue, h]
  rfl

theorem closingReturn_of_void {p : Program} (hvalue : returnsValue p = false) :
    closingReturn p = [] := by
  rw [closingReturn, hvalue]
  rfl

theorem getLast?_mainLines {p : Program} (hvalue : returnsValue p = true) :
    ∃ text, (mainLines p).getLast? = some ⟨2, "return " ++ text ++ ";"⟩ := by
  rw [mainLines, hvalue]
  by_cases hlast : ∃ value, p.getLast? = some (.giveBack value)
  · obtain ⟨value, hvalue'⟩ := hlast
    obtain ⟨front, rfl⟩ := List.getLast?_eq_some_iff.mp hvalue'
    refine ⟨value.elim "0" exprText, ?_⟩
    rw [closingReturn_of_return hvalue', List.append_nil, blockLines_append, ← returnText_true]
    exact List.getLast?_concat
  · refine ⟨"0", ?_⟩
    rw [closingReturn_of_other hvalue hlast]
    exact List.getLast?_concat

/-- The first line of a return, in a block of a `Main` of the given type. -/
theorem content_of_return {intMain : Bool} {around : List BlockKind} {b : List Stmt} {e : Entry}
    {n : Node} {value : Option Expr} (he : e ∈ blockEntries intMain around b)
    (hn : e.started? = some n) (hstmt : n.stmt = .giveBack value) :
    n ∈ blockNodes around b ∧ e.line.content = returnText intMain value := by
  constructor
  · rw [← filterMap_started?_blockEntries intMain]
    exact List.mem_filterMap.mpr ⟨e, he, hn⟩
  · rw [(placed_blockEntries intMain around b e he).first n hn, hstmt]
    rfl

/-! ## `Main` and its returns -/

/-- The lines of the statements of `Main`, with their nodes. -/
def mainEntries (p : Program) : List Entry :=
  blockEntries (returnsValue p) [] p

theorem mainLines_eq_append (p : Program) :
    mainLines p = (mainEntries p).map Entry.line ++ closingReturn p := by
  rw [mainEntries, map_line_blockEntries]
  rfl

/-- `Main` holds the lines of its statements, with a first line for every node of the program, and
the return that is added. If some node returns a value, `Main` is an `int`, all returns in it have
values, a bare one that of zero, and so has the line that `Main` ends with; one return is added where
the program does not end with a return, and none where it does. If there is no such node, `Main` is
`void`, all returns are bare, and nothing is added. -/
theorem main_returns (options : Options) (p : Program) :
    generate options p = Layout.render options.indent
      (frontLines options (mainType p) ++
        ((mainEntries p).map Entry.line ++ closingReturn p) ++ backLines) ∧
    (mainEntries p).filterMap Entry.started? = nodes p ∧
    (∀ e ∈ mainEntries p, e.started? = none → IsFurther e.line.content) ∧
    ((∃ n ∈ nodes p, n.GivesValue) →
      mainType p = "int" ∧
      (∀ e ∈ mainEntries p, ∀ n value, e.started? = some n → n.stmt = .giveBack value →
        e.line.content = "return " ++ value.elim "0" exprText ++ ";") ∧
      (∃ text, ((mainEntries p).map Entry.line ++ closingReturn p).getLast? =
        some ⟨2, "return " ++ text ++ ";"⟩) ∧
      ((∃ value, p.getLast? = some (.giveBack value)) → closingReturn p = []) ∧
      ((¬ ∃ value, p.getLast? = some (.giveBack value)) →
        closingReturn p = [⟨2, "return 0;"⟩])) ∧
    ((¬ ∃ n ∈ nodes p, n.GivesValue) →
      mainType p = "void" ∧
      (∀ e ∈ mainEntries p, ∀ n value, e.started? = some n → n.stmt = .giveBack value →
        e.line.content = "return;") ∧
      closingReturn p = []) := by
  refine ⟨?_, filterMap_started?_blockEntries _ _ p, ?_, ?_, ?_⟩
  · rw [generate_eq, lines_eq, mainLines_eq_append]
  · intro e he
    exact isFurther_of_started? he
  · intro hsome
    have hvalue : returnsValue p = true := (returnsValue_iff [] p).mpr hsome
    refine ⟨by rw [mainType, hvalue]; rfl, ?_, ?_, ?_, ?_⟩
    · intro e he n value hn hstmt
      rw [(content_of_return he hn hstmt).2, hvalue, returnText_true]
    · rw [← mainLines_eq_append]
      exact getLast?_mainLines hvalue
    · rintro ⟨value, hlast⟩
      exact closingReturn_of_return hlast
    · exact closingReturn_of_other hvalue
  · intro hnone
    have hvalue : returnsValue p = false := by
      rw [← Bool.not_eq_true]
      exact fun h => hnone ((returnsValue_iff [] p).mp h)
    refine ⟨by rw [mainType, hvalue]; rfl, ?_, closingReturn_of_void hvalue⟩
    intro e he n value hn hstmt
    obtain ⟨hnode, hcontent⟩ := content_of_return he hn hstmt
    cases value with
    | none => rw [hcontent, hvalue]; rfl
    | some v => exact absurd ⟨n, hnode, v, hstmt⟩ hnone

/-- A value that is returned from the last arm of a conditional, inside a loop that is followed by
another one with a bare return. -/
def returnsInArm : Program :=
  [.loop name [.branch name [] (.otherwise [.giveBack (some name)])] .post,
    .counted name [.giveBack none]]
where
  name : Expr := .ident ⟨"x", .empty 0⟩ (.empty 0)

theorem main_returns_arm :
    (∃ n ∈ nodes returnsInArm, n.GivesValue) ∧
      (¬ ∃ value, returnsInArm.getLast? = some (.giveBack value)) ∧
      generate {} returnsInArm = Layout.render "    " (frontLines {} "int" ++
        ((mainEntries returnsInArm).map Entry.line ++ [⟨2, "return 0;"⟩]) ++ backLines) ∧
      ∃ e ∈ mainEntries returnsInArm, e.started? = some ⟨[.counted], .giveBack none⟩ ∧
        e.line.content = "return 0;" := by
  have hvalue : ∃ n ∈ nodes returnsInArm, n.GivesValue :=
    ⟨⟨[.loop .post, .otherwise], .giveBack (some returnsInArm.name)⟩,
      by simp [nodes, returnsInArm, blockNodes, innerNodes, armsNodes], returnsInArm.name, rfl⟩
  have hlast : ¬ ∃ value, returnsInArm.getLast? = some (.giveBack value) := by
    rintro ⟨value, h⟩
    cases h
  obtain ⟨hgenerate, hnodes, -, hint, -⟩ := main_returns {} returnsInArm
  obtain ⟨htype, hreturns, -, -, hclosing⟩ := hint hvalue
  rw [htype, hclosing hlast] at hgenerate
  have hbare : (⟨[.counted], .giveBack none⟩ : Node) ∈
      (mainEntries returnsInArm).filterMap Entry.started? := by
    rw [hnodes]
    simp [nodes, returnsInArm, blockNodes, innerNodes, armsNodes]
  obtain ⟨e, he, hn⟩ := List.mem_filterMap.mp hbare
  exact ⟨hvalue, hlast, hgenerate, e, he, hn, hreturns e he _ none hn rfl⟩

end Bukvar.Listing
