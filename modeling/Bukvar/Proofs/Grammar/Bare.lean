import Bukvar.Program.Basic

/-!
# Trees without places

Two readings of a program are compared up to the places of their parts. `bare` moves every
span of a tree to the start of the source and makes it empty, and changes nothing else.

* `bare_withSpan`: the span of an expression as a whole leaves no trace in its bare tree.
-/

namespace Bukvar

/-- The name at no place. -/
def Ident.bare (id : Ident) : Ident :=
  ⟨id.name, .empty 0⟩

namespace Expr

/-- The expression with its parts at no place. -/
def bare : Expr → Expr
  | binary op lhs rhs _ => binary op lhs.bare rhs.bare (.empty 0)
  | ident id _ => ident id.bare (.empty 0)
  | integer value _ => integer value (.empty 0)
  | double value _ => double value (.empty 0)
  | string value _ => string value (.empty 0)

@[simp] theorem bare_withSpan (e : Expr) (s : Span) : (e.withSpan s).bare = e.bare := by
  cases e <;> rfl

@[simp] theorem isIdent_bare (e : Expr) : e.bare.isIdent = e.isIdent := by
  cases e <;> rfl

end Expr

mutual

/-- The statement with its parts at no place. -/
def Stmt.bare : Stmt → Stmt
  | .declare type name init => .declare type name.bare (init.map Expr.bare)
  | .assign expr => .assign expr.bare
  | .write expr => .write expr.bare
  | .read target type => .read target.bare type
  | .giveBack value => .giveBack (value.map Expr.bare)
  | .branch condition body arms => .branch condition.bare (bareBlock body) arms.bare
  | .counted count body => .counted count.bare (bareBlock body)
  | .loop condition body test => .loop condition.bare (bareBlock body) test

/-- The arms of a conditional with their parts at no place. -/
def Arms.bare : Arms → Arms
  | .done => .done
  | .otherwise body => .otherwise (bareBlock body)
  | .elseIf condition body rest => .elseIf condition.bare (bareBlock body) rest.bare

/-- The statements of a block with their parts at no place. -/
def bareBlock : List Stmt → List Stmt
  | [] => []
  | stmt :: rest => stmt.bare :: bareBlock rest

end

theorem bareBlock_append (as bs : List Stmt) :
    bareBlock (as ++ bs) = bareBlock as ++ bareBlock bs := by
  induction as with
  | nil => rfl
  | cons a as ih => rw [List.cons_append, bareBlock, ih, bareBlock, List.cons_append]

end Bukvar
