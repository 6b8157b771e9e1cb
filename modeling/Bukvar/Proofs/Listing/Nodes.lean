import Bukvar.Listing.Statement

/-!
# The statements of a program

A node is a statement of a program with the blocks that are around it. `nodes` lists them in the
order of the program.

* `returnsValue_iff`: the search for a return with a value looks at every node.
-/

namespace Bukvar.Listing

/-! ## Nodes -/

/-- What a block is to the statement that it is a part of. -/
inductive BlockKind where
  | body
  | elseIf
  | otherwise
  | counted
  | loop (test : LoopTest)
deriving DecidableEq

/-- A statement where it stands. -/
structure Node where
  /-- The blocks that the statement is in, from the outside to the inside. The statements of `Main`
  are in none. -/
  around : List BlockKind
  stmt : Stmt

mutual

/-- The nodes inside a statement. -/
def innerNodes (around : List BlockKind) : Stmt → List Node
  | .branch _ body arms => blockNodes (around ++ [.body]) body ++ armsNodes around arms
  | .counted _ body => blockNodes (around ++ [.counted]) body
  | .loop _ body test => blockNodes (around ++ [.loop test]) body
  | .declare .. | .assign _ | .write _ | .read .. | .giveBack _ => []

/-- The nodes inside the arms of a conditional. -/
def armsNodes (around : List BlockKind) : Arms → List Node
  | .done => []
  | .otherwise body => blockNodes (around ++ [.otherwise]) body
  | .elseIf _ body rest => blockNodes (around ++ [.elseIf]) body ++ armsNodes around rest

/-- The nodes of a block, each in front of those inside it. -/
def blockNodes (around : List BlockKind) : List Stmt → List Node
  | [] => []
  | stmt :: rest => ⟨around, stmt⟩ :: (innerNodes around stmt ++ blockNodes around rest)

end

/-- The nodes of a program. -/
def nodes (p : Program) : List Node :=
  blockNodes [] p

namespace Node

/-- The depth of the statement in a listing. -/
def depth (n : Node) : Nat :=
  2 + n.around.length

/-- The number of counted loops around. -/
def counters (n : Node) : Nat :=
  n.around.count .counted

/-- The statement is a return with a value. -/
def GivesValue (n : Node) : Prop :=
  ∃ value, n.stmt = .giveBack (some value)

instance : DecidablePred GivesValue := fun ⟨_, stmt⟩ =>
  match stmt with
  | .giveBack (some value) => .isTrue ⟨value, rfl⟩
  | .giveBack none | .declare .. | .assign _ | .write _ | .read .. | .branch .. | .counted ..
  | .loop .. => .isFalse nofun

end Node

/-! ## Returns -/

theorem any_isReturn_iff {last : Option Stmt} :
    last.any isReturn = true ↔ ∃ value, last = some (.giveBack value) := by
  constructor
  · intro h
    match last, h with
    | some (.giveBack value), _ => exact ⟨value, rfl⟩
  · rintro ⟨value, rfl⟩
    rfl

instance (last : Option Stmt) : Decidable (∃ value, last = some (.giveBack value)) :=
  decidable_of_iff _ any_isReturn_iff

mutual

theorem stmtReturnsValue_iff (around : List BlockKind) (s : Stmt) :
    stmtReturnsValue s = true ↔
      (Node.mk around s).GivesValue ∨ ∃ n ∈ innerNodes around s, n.GivesValue := by
  cases s with
  | giveBack value =>
    cases value <;> simp [stmtReturnsValue, innerNodes, Node.GivesValue]
  | branch condition body arms =>
    simp only [stmtReturnsValue, Bool.or_eq_true, returnsValue_iff (around ++ [.body]) body,
      armsReturnValue_iff around arms, innerNodes, List.mem_append, or_and_right, exists_or]
    simp [Node.GivesValue]
  | counted count body =>
    simp only [stmtReturnsValue, returnsValue_iff (around ++ [.counted]) body, innerNodes]
    simp [Node.GivesValue]
  | loop condition body test =>
    simp only [stmtReturnsValue, returnsValue_iff (around ++ [.loop test]) body, innerNodes]
    simp [Node.GivesValue]
  | _ => simp [stmtReturnsValue, innerNodes, Node.GivesValue]

theorem armsReturnValue_iff (around : List BlockKind) (a : Arms) :
    armsReturnValue a = true ↔ ∃ n ∈ armsNodes around a, n.GivesValue := by
  cases a with
  | done => simp [armsReturnValue, armsNodes]
  | otherwise body =>
    simp only [armsReturnValue, returnsValue_iff (around ++ [.otherwise]) body, armsNodes]
  | elseIf condition body rest =>
    simp only [armsReturnValue, Bool.or_eq_true, returnsValue_iff (around ++ [.elseIf]) body,
      armsReturnValue_iff around rest, armsNodes, List.mem_append, or_and_right, exists_or]

/-- A return with a value is found wherever it stands. -/
theorem returnsValue_iff (around : List BlockKind) (b : List Stmt) :
    returnsValue b = true ↔ ∃ n ∈ blockNodes around b, n.GivesValue := by
  cases b with
  | nil => simp [returnsValue, blockNodes]
  | cons s rest =>
    simp only [returnsValue, Bool.or_eq_true, stmtReturnsValue_iff around s,
      returnsValue_iff around rest, blockNodes, List.mem_cons, List.mem_append, or_and_right,
      exists_or, exists_eq_left, or_assoc]

end

theorem decide_givesValue (p : Program) :
    decide (∃ n ∈ nodes p, n.GivesValue) = returnsValue p := by
  rw [Bool.eq_iff_iff, decide_eq_true_iff, returnsValue_iff [] p, nodes]

end Bukvar.Listing
