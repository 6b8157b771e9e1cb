import Bukvar.Listing.Expression
import Bukvar.Proofs.Grammar.Program
import Bukvar.Token.Lexeme

/-!
# What can stand in a tree

The leaves of a tree that was derived from a source are restricted by the symbols of the
derivation: names are texts of name tokens, numbers have values, and strings fit between quotes
on one line. `Legible` collects these restrictions. What is known of names is a parameter, since
some results are about sources whose names are restricted further.

* `Derivation.legible_tree`, `Phrase.legible_tree`: trees of derivations.
* `legible_of_mem_blockExprs`, `Expr.Legible.of_mem_subterms`: expressions anywhere in a program.
-/

namespace Bukvar

/-! ## Parts of programs -/

namespace Expr

/-- The expression and all expressions inside it. -/
def subterms : Expr → List Expr
  | binary op lhs rhs span => binary op lhs rhs span :: (lhs.subterms ++ rhs.subterms)
  | e => [e]

/-- The variables that occur. -/
def names : Expr → List String
  | binary _ lhs rhs _ => lhs.names ++ rhs.names
  | ident id _ => [id.name]
  | _ => []

/-- The floating-point numbers that occur. -/
def doubles : Expr → List Decimal.Binary64
  | binary _ lhs rhs _ => lhs.doubles ++ rhs.doubles
  | double value _ => [value]
  | _ => []

end Expr

mutual

/-- The expressions of a statement and of the statements inside it. -/
def Stmt.exprs : Stmt → List Expr
  | .declare _ _ init => init.toList
  | .assign expr => [expr]
  | .write expr => [expr]
  | .read _ _ => []
  | .giveBack value => value.toList
  | .branch condition body arms => condition :: (blockExprs body ++ arms.exprs)
  | .counted count body => count :: blockExprs body
  | .loop condition body _ => condition :: blockExprs body

/-- The expressions of the arms of a conditional. -/
def Arms.exprs : Arms → List Expr
  | .done => []
  | .otherwise body => blockExprs body
  | .elseIf condition body rest => condition :: (blockExprs body ++ rest.exprs)

/-- The expressions of the statements of a block. -/
def blockExprs : List Stmt → List Expr
  | [] => []
  | stmt :: rest => stmt.exprs ++ blockExprs rest

end

/-! ## Legible trees -/

section

variable (named : String → Prop)

/-- Only the given names occur, an assignment goes to a name, numbers have values, and strings
fit between quotes. -/
def Expr.Legible : Expr → Prop
  | binary op lhs rhs _ =>
    lhs.Legible ∧ rhs.Legible ∧ (op = .assign → lhs.isIdent = true)
  | ident id _ => named id.name
  | integer value _ => Decimal.InRange value
  | double value _ => value.isFinite = true
  | string value _ => ∀ c ∈ value.toList, Token.endsQuote c = false

mutual

/-- The expressions of a statement are legible, and only the given names are declared and read. -/
def Stmt.Legible : Stmt → Prop
  | .declare _ name init => named name.name ∧ ∀ e ∈ init, e.Legible named
  | .assign expr => Listing.isAssignment expr = true ∧ expr.Legible named
  | .write expr => expr.Legible named
  | .read target _ => named target.name
  | .giveBack value => ∀ e ∈ value, e.Legible named
  | .branch condition body arms => condition.Legible named ∧ LegibleBlock body ∧ arms.Legible
  | .counted count body => count.Legible named ∧ LegibleBlock body
  | .loop condition body _ => condition.Legible named ∧ LegibleBlock body

/-- The arms of a conditional are legible. -/
def Arms.Legible : Arms → Prop
  | .done => True
  | .otherwise body => LegibleBlock body
  | .elseIf condition body rest => condition.Legible named ∧ LegibleBlock body ∧ rest.Legible

/-- The statements of a block are legible. -/
def LegibleBlock : List Stmt → Prop
  | [] => True
  | stmt :: rest => stmt.Legible ∧ LegibleBlock rest

end

end

theorem Listing.isAssignment_bare (e : Expr) : isAssignment e.bare = isAssignment e := by
  cases e with
  | binary op lhs rhs span => cases op <;> rfl
  | _ => rfl

namespace Expr

variable {named : String → Prop}

theorem legible_bare {e : Expr} : e.bare.Legible named ↔ e.Legible named := by
  induction e with
  | binary op lhs rhs span ihl ihr => simp only [bare, Legible, ihl, ihr, isIdent_bare]
  | _ => exact Iff.rfl

theorem Legible.of_mem_subterms {e part : Expr} (h : e.Legible named)
    (hmem : part ∈ e.subterms) : part.Legible named := by
  induction e with
  | binary op lhs rhs span ihl ihr =>
    rcases List.mem_cons.mp hmem with rfl | hmem
    · exact h
    · rcases List.mem_append.mp hmem with hmem | hmem
      · exact ihl h.1 hmem
      · exact ihr h.2.1 hmem
  | _ => exact List.mem_singleton.mp hmem ▸ h

/-- Other restrictions on the names that occur. -/
theorem Legible.rename {named' : String → Prop} {e : Expr} (h : e.Legible named)
    (hnames : ∀ n ∈ e.names, named n → named' n) : e.Legible named' := by
  induction e with
  | binary op lhs rhs span ihl ihr =>
    refine ⟨ihl h.1 ?_, ihr h.2.1 ?_, h.2.2⟩
    · intro n hn
      exact hnames n (List.mem_append_left _ hn)
    · intro n hn
      exact hnames n (List.mem_append_right _ hn)
  | ident id span => exact hnames id.name (List.mem_singleton_self _) h
  | _ => exact h

end Expr

section

variable {named : String → Prop}

mutual

theorem Stmt.legible_bare (s : Stmt) : s.bare.Legible named ↔ s.Legible named := by
  cases s with
  | declare type name init =>
    cases init <;> simp [Stmt.bare, Stmt.Legible, Ident.bare, Expr.legible_bare]
  | assign expr =>
    simp only [Stmt.bare, Stmt.Legible, Expr.legible_bare, Listing.isAssignment_bare]
  | write expr => simp only [Stmt.bare, Stmt.Legible, Expr.legible_bare]
  | read target type => simp only [Stmt.bare, Stmt.Legible, Ident.bare]
  | giveBack value => cases value <;> simp [Stmt.bare, Stmt.Legible, Expr.legible_bare]
  | branch condition body arms =>
    simp only [Stmt.bare, Stmt.Legible, Expr.legible_bare, legible_bareBlock body,
      Arms.legible_bare arms]
  | counted count body =>
    simp only [Stmt.bare, Stmt.Legible, Expr.legible_bare, legible_bareBlock body]
  | loop condition body test =>
    simp only [Stmt.bare, Stmt.Legible, Expr.legible_bare, legible_bareBlock body]

theorem Arms.legible_bare (a : Arms) : a.bare.Legible named ↔ a.Legible named := by
  cases a with
  | done => simp only [Arms.bare]
  | otherwise body => simp only [Arms.bare, Arms.Legible, legible_bareBlock body]
  | elseIf condition body rest =>
    simp only [Arms.bare, Arms.Legible, Expr.legible_bare, legible_bareBlock body,
      Arms.legible_bare rest]

theorem legible_bareBlock (b : List Stmt) :
    LegibleBlock named (bareBlock b) ↔ LegibleBlock named b := by
  cases b with
  | nil => simp only [bareBlock]
  | cons s rest => simp only [bareBlock, LegibleBlock, s.legible_bare, legible_bareBlock rest]

end

mutual

theorem Stmt.Legible.of_mem_exprs {s : Stmt} (h : s.Legible named) {e : Expr} (he : e ∈ s.exprs) :
    e.Legible named := by
  cases s with
  | declare type name init => exact h.2 e (by simpa [Stmt.exprs] using he)
  | assign expr => exact List.mem_singleton.mp he ▸ h.2
  | write expr => exact List.mem_singleton.mp he ▸ h
  | read target type => cases he
  | giveBack value => exact h e (by simpa [Stmt.exprs] using he)
  | branch condition body arms =>
    rcases List.mem_cons.mp he with rfl | he
    · exact h.1
    · rcases List.mem_append.mp he with he | he
      · exact legible_of_mem_blockExprs h.2.1 he
      · exact h.2.2.of_mem_exprs he
  | counted count body =>
    rcases List.mem_cons.mp he with rfl | he
    · exact h.1
    · exact legible_of_mem_blockExprs h.2 he
  | loop condition body test =>
    rcases List.mem_cons.mp he with rfl | he
    · exact h.1
    · exact legible_of_mem_blockExprs h.2 he

theorem Arms.Legible.of_mem_exprs {a : Arms} (h : a.Legible named) {e : Expr} (he : e ∈ a.exprs) :
    e.Legible named := by
  cases a with
  | done => cases he
  | otherwise body => exact legible_of_mem_blockExprs h he
  | elseIf condition body rest =>
    rcases List.mem_cons.mp he with rfl | he
    · exact h.1
    · rcases List.mem_append.mp he with he | he
      · exact legible_of_mem_blockExprs h.2.1 he
      · exact h.2.2.of_mem_exprs he

theorem legible_of_mem_blockExprs {b : List Stmt} (h : LegibleBlock named b) {e : Expr}
    (he : e ∈ blockExprs b) : e.Legible named := by
  cases b with
  | nil => cases he
  | cons s rest =>
    rcases List.mem_append.mp he with he | he
    · exact h.1.of_mem_exprs he
    · exact legible_of_mem_blockExprs h.2 he

end

end

/-! ## Trees of derivations -/

namespace Grammar

variable {named : String → Prop}

/-- What the symbols of a legible tree are like. -/
structure Symbol.Legible (named : String → Prop) (s : Symbol) : Prop where
  fits : s.Fits
  name : s.kind = .name → named s.text
  string : s.kind = .stringLiteral → ∀ c ∈ (Text.stringOf s.text).toList,
    Token.endsQuote c = false

theorem legible_of_subset {u v : List Symbol} (h : ∀ x ∈ v, x.Legible named) (huv : u ⊆ v) :
    ∀ x ∈ u, x.Legible named :=
  fun x hx => h x (huv hx)

theorem subset_grouped (w : List Symbol) : w ⊆ grouped w := by
  intro x hx
  simp [grouped, hx]

theorem Target.legible_tree (t : Target) (h : ∀ x ∈ t.word, x.Legible named) :
    t.tree.Legible named := by
  induction t with
  | name text => exact (h _ (List.mem_singleton_self _)).name rfl
  | group inner ih => exact ih (legible_of_subset h (subset_grouped _))

theorem legible_operands {u v : List Symbol} {s : Symbol}
    (h : ∀ x ∈ u ++ s :: v, x.Legible named) :
    (∀ x ∈ u, x.Legible named) ∧ ∀ x ∈ v, x.Legible named :=
  ⟨legible_of_subset h (by simp), legible_of_subset h (by simp)⟩

theorem Derivation.legible_tree {l : Level} (d : Derivation l) (h : ∀ x ∈ d.word, x.Legible named) :
    d.tree.Legible named := by
  induction d with
  | assign target value ih =>
    obtain ⟨ht, hv⟩ := legible_operands h
    exact ⟨target.legible_tree ht, ih hv, fun _ => target.isIdent_tree⟩
  | compare lhs op hop rhs ihl ihr =>
    obtain ⟨hl, hr⟩ := legible_operands h
    refine ⟨ihl hl, ihr hr, fun ha => ?_⟩
    rw [ha] at hop
    cases hop
  | add lhs op hop rhs ihl ihr =>
    obtain ⟨hl, hr⟩ := legible_operands h
    refine ⟨ihl hl, ihr hr, fun ha => ?_⟩
    rw [ha] at hop
    cases hop
  | multiply lhs op hop rhs ihl ihr =>
    obtain ⟨hl, hr⟩ := legible_operands h
    refine ⟨ihl hl, ihr hr, fun ha => ?_⟩
    rw [ha] at hop
    cases hop
  | ofComparison inner ih => exact ih h
  | ofSum inner ih => exact ih h
  | ofProduct inner ih => exact ih h
  | ofPrimary inner ih => exact ih h
  | name text => exact (h _ (List.mem_singleton_self _)).name rfl
  | integer text => exact (h _ (List.mem_singleton_self _)).fits.1 rfl
  | double text => exact (h _ (List.mem_singleton_self _)).fits.2 rfl
  | string text => exact (h _ (List.mem_singleton_self _)).string rfl
  | group inner ih => exact ih (legible_of_subset h (subset_grouped _))

theorem fits_append_cons {u v : List Symbol} {s : Symbol} (hu : ∀ x ∈ u, x.Fits) (hs : s.Fits)
    (hv : ∀ x ∈ v, x.Fits) : ∀ x ∈ u ++ s :: v, x.Fits := by
  intro x hx
  rcases List.mem_append.mp hx with hx | hx
  · exact hu x hx
  · rcases List.mem_cons.mp hx with rfl | hx
    · exact hs
    · exact hv x hx

theorem fits_grouped {w : List Symbol} (h : ∀ x ∈ w, x.Fits) : ∀ x ∈ grouped w, x.Fits :=
  @fits_append_cons [] _ _ nofun (fits_mark rfl) (fits_append_cons h (fits_mark rfl) nofun)

theorem Target.fits_word (t : Target) : ∀ x ∈ t.word, x.Fits := by
  induction t with
  | name text => exact List.forall_mem_singleton.mpr (fits_name text)
  | group inner ih => exact fits_grouped ih

/-- The literals of a legible tree have values. -/
theorem Derivation.fits_word {l : Level} (d : Derivation l) (h : d.tree.Legible named) :
    ∀ x ∈ d.word, x.Fits := by
  induction d with
  | assign target value ih => exact fits_append_cons target.fits_word (fits_mark rfl) (ih h.2.1)
  | compare lhs op hop rhs ihl ihr =>
    exact fits_append_cons (ihl h.1) (fits_mark rfl) (ihr h.2.1)
  | add lhs op hop rhs ihl ihr => exact fits_append_cons (ihl h.1) (fits_mark rfl) (ihr h.2.1)
  | multiply lhs op hop rhs ihl ihr =>
    exact fits_append_cons (ihl h.1) (fits_mark rfl) (ihr h.2.1)
  | ofComparison inner ih => exact ih h
  | ofSum inner ih => exact ih h
  | ofProduct inner ih => exact ih h
  | ofPrimary inner ih => exact ih h
  | name text => exact List.forall_mem_singleton.mpr (fits_name text)
  | integer text =>
    refine List.forall_mem_singleton.mpr ⟨fun _ => h, ?_⟩
    intro hkind
    cases hkind
  | double text =>
    refine List.forall_mem_singleton.mpr ⟨?_, fun _ => h⟩
    intro hkind
    cases hkind
  | string text =>
    refine List.forall_mem_singleton.mpr ⟨?_, ?_⟩
    · intro hkind
      cases hkind
    · intro hkind
      cases hkind
  | group inner ih => exact fits_grouped (ih h)

/-- What a phrase stands for is legible. -/
def Category.Legible (named : String → Prop) : (c : Category) → c.Tree → Prop
  | statement => Stmt.Legible named
  | block => LegibleBlock named
  | arms => Arms.Legible named

theorem Phrase.legible_tree {c : Category} (p : Phrase c) (known : Declarations)
    (h : ∀ x ∈ p.word, x.Legible named) : c.Legible named (p.tree known) := by
  induction p generalizing known with
  | declare type name init =>
    refine ⟨(h ⟨.name, name⟩ (by simp [word])).name rfl, ?_⟩
    cases init with
    | none => exact nofun
    | some value =>
      rintro _ ⟨⟩
      exact value.legible_tree (legible_of_subset h (by intro x hx; simp [word, initWord, hx]))
  | assign name value =>
    refine ⟨rfl, (h ⟨.name, name⟩ (by simp [word])).name rfl, ?_, fun _ => rfl⟩
    exact value.legible_tree (legible_of_subset h (by intro x hx; simp [word, hx]))
  | branch condition body arms ihb iha =>
    refine ⟨condition.legible_tree (legible_of_subset h ?_), ihb known (legible_of_subset h ?_),
      iha _ (legible_of_subset h ?_)⟩
    · intro x hx; simp [word, hx]
    · intro x hx; simp [word, hx]
    · intro x hx; simp [word, hx]
  | whileInside condition body ih =>
    refine ⟨condition.legible_tree (legible_of_subset h ?_), ih known (legible_of_subset h ?_)⟩
    · intro x hx; simp [word, hx]
    · intro x hx; simp [word, hx]
  | whileBefore condition body ih =>
    refine ⟨condition.legible_tree (legible_of_subset h ?_), ih known (legible_of_subset h ?_)⟩
    · intro x hx; simp [word, hx]
    · intro x hx; simp [word, hx]
  | counted count body ih =>
    refine ⟨count.legible_tree (legible_of_subset h ?_), ih known (legible_of_subset h ?_)⟩
    · intro x hx; simp [word, hx]
    · intro x hx; simp [word, hx]
  | whileAfter body condition ih =>
    refine ⟨condition.legible_tree (legible_of_subset h ?_), ih known (legible_of_subset h ?_)⟩
    · intro x hx; simp [word, roundsWord, hx]
    · intro x hx; simp [word, roundsWord, hx]
  | write value =>
    exact value.legible_tree (legible_of_subset h (by intro x hx; simp [word, hx]))
  | read name => exact (h ⟨.name, name⟩ (by simp [word])).name rfl
  | giveBack value =>
    cases value with
    | none => exact nofun
    | some value =>
      rintro _ ⟨⟩
      exact value.legible_tree (legible_of_subset h (by intro x hx; simp [word, valueWord, hx]))
  | nil => trivial
  | cons first rest ihf ihr =>
    refine ⟨ihf known (legible_of_subset h ?_), ihr _ (legible_of_subset h ?_)⟩
    · intro x hx; simp [hx]
    · intro x hx; simp [hx]
  | done => trivial
  | otherwise body ih => exact ih known (legible_of_subset h (by intro x hx; simp [word, hx]))
  | elseIf condition body rest ihb ihr =>
    refine ⟨condition.legible_tree (legible_of_subset h ?_), ihb known (legible_of_subset h ?_),
      ihr _ (legible_of_subset h ?_)⟩
    · intro x hx; simp [word, hx]
    · intro x hx; simp [word, hx]
    · intro x hx; simp [word, hx]

end Grammar

end Bukvar
