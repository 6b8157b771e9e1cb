import Bukvar.Program.Basic

/-!
# Declared and read variables

Statements name variables also outside of their expressions: a declaration names what it declares,
and a statement that reads a value names its target, together with the type that it has there.
`blockOccurrences` lists these places in the order of the source, in which the arms of a conditional
follow each other and the body of a loop stands once.

The names that are known behind a list of such places do not depend on the blocks around them.

* `LastDeclared`: which declaration of a name counts.
* `Follows.lastDeclared`: with no names known in advance, every target has the type of the last
  declaration before it.
-/

namespace Bukvar

/-- A place where a statement names a variable by itself. -/
inductive Occurrence where
  | declares (type : VarType) (name : Ident)
  | reads (target : Ident) (type : VarType)
deriving DecidableEq

/-- The variable that is named. -/
def Occurrence.ident : Occurrence → Ident
  | declares _ name => name
  | reads target _ => target

mutual

/-- The places of a statement and of the statements inside it, in the order of the source. -/
def Stmt.occurrences : Stmt → List Occurrence
  | .declare type name _ => [.declares type name]
  | .assign _ => []
  | .write _ => []
  | .read target type => [.reads target type]
  | .giveBack _ => []
  | .branch _ body arms => blockOccurrences body ++ arms.occurrences
  | .counted _ body => blockOccurrences body
  | .loop _ body _ => blockOccurrences body

/-- The places of the arms of a conditional. -/
def Arms.occurrences : Arms → List Occurrence
  | .done => []
  | .otherwise body => blockOccurrences body
  | .elseIf _ body rest => blockOccurrences body ++ rest.occurrences

/-- The places of the statements of a block. -/
def blockOccurrences : List Stmt → List Occurrence
  | [] => []
  | stmt :: rest => stmt.occurrences ++ blockOccurrences rest

end

/-! ## Types of targets -/

/-- The names that are known behind the places, the latest first. -/
def declaredAfter (known : List (String × VarType)) : List Occurrence → List (String × VarType)
  | [] => known
  | .declares type name :: rest => declaredAfter ((name.name, type) :: known) rest
  | .reads _ _ :: rest => declaredAfter known rest

/-- Every target has the type under which its name is known there. -/
def Follows (known : List (String × VarType)) : List Occurrence → Prop
  | [] => True
  | .declares type name :: rest => Follows ((name.name, type) :: known) rest
  | .reads target type :: rest => known.lookup target.name = some type ∧ Follows known rest

/-- The last declaration of the name among the places is one of the type. -/
def LastDeclared (os : List Occurrence) (name : String) (type : VarType) : Prop :=
  ∃ earlier found later, os = earlier ++ .declares type found :: later ∧ found.name = name ∧
    ∀ other ident, .declares other ident ∈ later → ident.name ≠ name

variable {known : List (String × VarType)} {name : String} {type : VarType}

theorem declaredAfter_append (known : List (String × VarType)) (os us : List Occurrence) :
    declaredAfter known (os ++ us) = declaredAfter (declaredAfter known os) us := by
  induction os generalizing known with
  | nil => rfl
  | cons o os ih => cases o <;> exact ih _

theorem follows_append {os us : List Occurrence} :
    Follows known (os ++ us) ↔ Follows known os ∧ Follows (declaredAfter known os) us := by
  induction os generalizing known with
  | nil => simp only [List.nil_append, Follows, declaredAfter, true_and]
  | cons o os ih =>
    cases o with
    | declares type name => exact ih
    | reads target type =>
      simp only [List.cons_append, Follows, declaredAfter, ih, and_assoc]

theorem LastDeclared.cons {os : List Occurrence} (h : LastDeclared os name type) (o : Occurrence) :
    LastDeclared (o :: os) name type := by
  obtain ⟨earlier, found, later, rfl, hname, hlater⟩ := h
  exact ⟨o :: earlier, found, later, rfl, hname, hlater⟩

/-- What is known of a name was known in advance and is declared nowhere among the places, or it is
what its last declaration says. -/
theorem lookup_declaredAfter {os : List Occurrence}
    (h : (declaredAfter known os).lookup name = some type) :
    known.lookup name = some type ∧ (∀ other ident, .declares other ident ∈ os → ident.name ≠ name) ∨
      LastDeclared os name type := by
  induction os generalizing known with
  | nil => exact .inl ⟨h, fun _ _ hmem => nomatch hmem⟩
  | cons o os ih =>
    cases o with
    | reads target type' =>
      rcases ih h with ⟨hknown, hnone⟩ | hlast
      · refine .inl ⟨hknown, ?_⟩
        intro other ident hmem
        exact hnone other ident (by simpa using hmem)
      · exact .inr (hlast.cons _)
    | declares type' found =>
      rcases ih h with ⟨hknown, hnone⟩ | hlast
      · by_cases hname : found.name = name
        · rw [hname, List.lookup_cons_self, Option.some.injEq] at hknown
          subst hknown
          exact .inr ⟨[], found, os, rfl, hname, hnone⟩
        · rw [List.lookup_cons, beq_false_of_ne (Ne.symm hname)] at hknown
          refine .inl ⟨hknown, ?_⟩
          intro other ident hmem
          rcases List.mem_cons.mp hmem with heq | hmem
          · cases heq
            exact hname
          · exact hnone other ident hmem
      · exact .inr (hlast.cons _)

/-- A target has the type of the last declaration of its name before it, whatever blocks the two are
in. -/
theorem Follows.lastDeclared {before after : List Occurrence} {target : Ident}
    (h : Follows [] (before ++ .reads target type :: after)) :
    LastDeclared before target.name type := by
  rcases lookup_declaredAfter (follows_append.mp h).2.1 with ⟨hknown, -⟩ | hlast
  · cases hknown
  · exact hlast

end Bukvar
