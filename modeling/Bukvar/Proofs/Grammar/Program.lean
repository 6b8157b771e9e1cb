import Bukvar.Proofs.Grammar.Expression

/-!
# The grammar of programs

Statements, the statements of a block and the arms of a conditional are derived by one family
of trees, `Phrase`. The word of a phrase leaves two questions open that the next symbol has to
answer: which loop comes behind the word that opens one, and whether a condition behind the
statements of a loop ends it or starts a loop inside. `Phrase.Valid` holds the answers, as
conditions on the first symbols of words.

A statement that reads a variable is given the type of the latest declaration of its name.
`Phrase.mentions` lists declarations and such statements in the order of the source, across
all blocks.
-/

namespace Bukvar.Grammar

open Token (Kind)

/-! ## Phrases -/

/-- What a phrase derives. -/
inductive Category where
  | statement
  | block
  | arms

/-- An expression as a part of a statement. -/
abbrev Clause := Derivation .assignment

/-- The derivation trees of statements, of blocks and of the arms of conditionals:

```text
statement ::= TYPE ID ['=' expr] ';'
            | ID '=' expr ';'
            | 'если' expr 'то' block arms 'кесли'
            | 'нц' 'пока' expr block 'кц'
            | 'пока' expr 'нц' block 'кц'
            | 'нц' expr 'раз' block 'кц'
            | 'нц' block 'пока' expr 'кц'
            | 'написать' expr ';'
            | 'прочитать' ID ';'
            | 'вернуть' [expr] ';'
block     ::= | statement block
arms      ::= | 'иначе' block | 'иначе' 'если' expr 'то' block arms
```
-/
inductive Phrase : Category → Type where
  | declare (type : VarType) (name : String) (init : Option Clause) : Phrase .statement
  | assign (name : String) (value : Clause) : Phrase .statement
  | branch (condition : Clause) (body : Phrase .block) (arms : Phrase .arms) : Phrase .statement
  | whileInside (condition : Clause) (body : Phrase .block) : Phrase .statement
  | whileBefore (condition : Clause) (body : Phrase .block) : Phrase .statement
  | counted (count : Clause) (body : Phrase .block) : Phrase .statement
  | whileAfter (body : Phrase .block) (condition : Clause) : Phrase .statement
  | write (value : Clause) : Phrase .statement
  | read (name : String) : Phrase .statement
  | giveBack (value : Option Clause) : Phrase .statement
  | nil : Phrase .block
  | cons (first : Phrase .statement) (rest : Phrase .block) : Phrase .block
  | done : Phrase .arms
  | otherwise (body : Phrase .block) : Phrase .arms
  | elseIf (condition : Clause) (body : Phrase .block) (rest : Phrase .arms) : Phrase .arms

/-- The symbols of a value that may be absent. -/
def valueWord : Option Clause → List Symbol
  | none => []
  | some value => value.word

/-- The symbols of an initial value that may be absent. -/
def initWord : Option Clause → List Symbol
  | none => []
  | some value => .mark (.operator .assign) :: value.word

/-- The symbols behind the word that opens a loop with its condition behind the body. -/
def roundsWord (body : List Symbol) (condition : Clause) : List Symbol :=
  body ++ .mark .whileWord :: (condition.word ++ [.mark .loopEnd])

namespace Phrase

/-- The string of symbols that is derived. -/
def word {c : Category} : Phrase c → List Symbol
  | declare type name init =>
    .mark (.typeWord type) :: ⟨.name, name⟩ :: (initWord init ++ [.mark .semicolon])
  | assign name value =>
    ⟨.name, name⟩ :: .mark (.operator .assign) :: (value.word ++ [.mark .semicolon])
  | branch condition body arms =>
    .mark .ifWord :: (condition.word ++
      .mark .thenWord :: (body.word ++ (arms.word ++ [.mark .endIf])))
  | whileInside condition body =>
    .mark .loopBegin :: .mark .whileWord :: (condition.word ++ (body.word ++ [.mark .loopEnd]))
  | whileBefore condition body =>
    .mark .whileWord :: (condition.word ++ .mark .loopBegin :: (body.word ++ [.mark .loopEnd]))
  | counted count body =>
    .mark .loopBegin :: (count.word ++ .mark .times :: (body.word ++ [.mark .loopEnd]))
  | whileAfter body condition => .mark .loopBegin :: roundsWord body.word condition
  | write value => .mark .writeWord :: (value.word ++ [.mark .semicolon])
  | read name => [.mark .readWord, ⟨.name, name⟩, .mark .semicolon]
  | giveBack value => .mark .returnWord :: (valueWord value ++ [.mark .semicolon])
  | nil => []
  | cons first rest => first.word ++ rest.word
  | done => []
  | otherwise body => .mark .elseWord :: body.word
  | elseIf condition body rest =>
    .mark .elseWord :: .mark .ifWord :: (condition.word ++
      .mark .thenWord :: (body.word ++ rest.word))

@[simp] theorem word_nil : nil.word = [] := rfl

@[simp] theorem word_cons (first : Phrase .statement) (rest : Phrase .block) :
    (cons first rest).word = first.word ++ rest.word := rfl

end Phrase

/-- The words that show, behind a name, that the name starts a count: the one that stands behind a
count, and `+`, `-`, `*` and `/`. -/
def continuesCount : Kind → Bool
  | .times => true
  | .operator .add | .operator .subtract | .operator .multiply | .operator .divide => true
  | _ => false

/-- Whether symbols start with a number or a parenthesis, or with a name and a word that shows that
the name starts a count. -/
def startsCount : List Symbol → Bool
  | x :: rest =>
    match x.kind with
    | .integerLiteral | .leftParen => true
    | .name =>
      match rest with
      | y :: _ => continuesCount y.kind
      | [] => false
    | _ => false
  | [] => false

/-- The first symbols of a phrase and of its parts fit their surroundings. -/
def Phrase.Valid {c : Category} : Phrase c → Prop
  | branch _ body arms => body.Valid ∧ arms.Valid
  | whileInside _ body => body.Valid
  | whileBefore _ body => body.Valid
  | counted count body => startsCount (count.word ++ [.mark .times]) = true ∧ body.Valid
  | whileAfter body _ =>
    body.word ≠ [] ∧ body.word.head? ≠ some (.mark .whileWord) ∧ body.Valid
  | cons first rest => first.Valid ∧ rest.Valid
  | otherwise body => body.word.head? ≠ some (.mark .ifWord) ∧ body.Valid
  | elseIf _ body rest => body.Valid ∧ rest.Valid
  | _ => True

/-! ## Declarations -/

/-- An occurrence of a name that concerns its declaration. -/
inductive Mention where
  | declares (name : String) (type : VarType)
  | reads (name : String)
deriving DecidableEq

/-- Types of names, the latest declaration first. -/
abbrev Declarations := List (String × VarType)

/-- The declarations that are known behind some mentions. -/
def Declarations.after (known : Declarations) : List Mention → Declarations
  | [] => known
  | .declares name type :: rest => Declarations.after ((name, type) :: known) rest
  | .reads _ :: rest => Declarations.after known rest

/-- Every name that is read is known there. -/
def Declarations.Cover (known : Declarations) : List Mention → Prop
  | [] => True
  | .declares name type :: rest => Declarations.Cover ((name, type) :: known) rest
  | .reads name :: rest => (known.lookup name).isSome = true ∧ Declarations.Cover known rest

/-- Every name that is read has been declared before. -/
def Announced (mentions : List Mention) : Prop :=
  ∀ before name after, mentions = before ++ .reads name :: after →
    ∃ type, .declares name type ∈ before

/-- The declarations and the statements that read, in the order of the source. -/
def Phrase.mentions {c : Category} : Phrase c → List Mention
  | declare type name _ => [.declares name type]
  | read name => [.reads name]
  | branch _ body arms => body.mentions ++ arms.mentions
  | whileInside _ body => body.mentions
  | whileBefore _ body => body.mentions
  | counted _ body => body.mentions
  | whileAfter body _ => body.mentions
  | cons first rest => first.mentions ++ rest.mentions
  | otherwise body => body.mentions
  | elseIf _ body rest => body.mentions ++ rest.mentions
  | _ => []

theorem after_append (known : Declarations) (ms ns : List Mention) :
    known.after (ms ++ ns) = (known.after ms).after ns := by
  fun_induction Declarations.after known ms with
  | case1 => rfl
  | case2 _ _ _ _ ih => exact ih
  | case3 _ _ _ ih => exact ih

theorem cover_append (known : Declarations) (ms ns : List Mention) :
    known.Cover (ms ++ ns) ↔ known.Cover ms ∧ (known.after ms).Cover ns := by
  fun_induction Declarations.after known ms with
  | case1 => simp [Declarations.Cover]
  | case2 _ _ _ _ ih => exact ih
  | case3 known name ms ih =>
    simp only [List.cons_append, Declarations.Cover, ih, and_assoc]

theorem isSome_lookup_cons {known : Declarations} {name name' : String} {type : VarType} :
    (List.lookup name ((name', type) :: known)).isSome = true ↔
      name = name' ∨ (known.lookup name).isSome = true := by
  rw [List.lookup_cons]
  by_cases h : name = name'
  · simp [h]
  · simp [beq_eq_false_iff_ne.mpr h, h]

theorem cover_iff (known : Declarations) (ms : List Mention) :
    known.Cover ms ↔ ∀ before name after, ms = before ++ .reads name :: after →
      (known.lookup name).isSome = true ∨ ∃ type, .declares name type ∈ before := by
  fun_induction Declarations.Cover known ms with
  | case1 => simp
  | case2 known name type rest ih =>
    rw [ih]
    constructor
    · intro h before name' after heq
      obtain ⟨b, rfl, hrest⟩ | ⟨h0, hread⟩ := List.cons_eq_append_iff.mp heq |>.symm
      · rcases h b name' after hrest with hl | ⟨t, ht⟩
        · rcases isSome_lookup_cons.mp hl with rfl | hl
          · exact .inr ⟨type, List.mem_cons_self ..⟩
          · exact .inl hl
        · exact .inr ⟨t, List.mem_cons_of_mem _ ht⟩
      · cases hread
    · intro h before name' after heq
      rw [isSome_lookup_cons]
      rcases h (.declares name type :: before) name' after (by rw [heq]; rfl) with hl | ⟨t, ht⟩
      · exact .inl (.inr hl)
      · rcases List.mem_cons.mp ht with ht | ht
        · cases ht
          exact .inl (.inl rfl)
        · exact .inr ⟨t, ht⟩
  | case3 known name rest ih =>
    rw [ih]
    constructor
    · rintro ⟨hname, h⟩ before name' after heq
      obtain ⟨b, rfl, hrest⟩ | ⟨h0, hread⟩ := List.cons_eq_append_iff.mp heq |>.symm
      · rcases h b name' after hrest with hl | ⟨t, ht⟩
        · exact .inl hl
        · exact .inr ⟨t, List.mem_cons_of_mem _ ht⟩
      · cases hread
        exact .inl hname
    · intro h
      refine ⟨?_, ?_⟩
      · rcases h [] name rest rfl with hl | ⟨t, ht⟩
        · exact hl
        · cases ht
      · intro before name' after heq
        rcases h (.reads name :: before) name' after (by rw [heq]; rfl) with hl | ⟨t, ht⟩
        · exact .inl hl
        · rcases List.mem_cons.mp ht with ht | ht
          · cases ht
          · exact .inr ⟨t, ht⟩

/-- Where nothing is known yet, a name has to be declared before it is read. -/
theorem cover_nil_iff (ms : List Mention) : Declarations.Cover [] ms ↔ Announced ms := by
  rw [cover_iff]
  simp [Announced]

/-! ## Trees -/

/-- What a phrase stands for. -/
@[reducible] def Category.Tree : Category → Type
  | statement => Stmt
  | block => List Stmt
  | arms => Arms

namespace Phrase

/-- The tree that is derived where some declarations are known. -/
def tree : {c : Category} → Phrase c → Declarations → c.Tree
  | _, declare type name init, _ =>
    Stmt.declare type ⟨name, .empty 0⟩ (init.map Derivation.tree)
  | _, assign name value, _ => Stmt.assign (Derivation.assign (.name name) value).tree
  | _, branch condition body arms, known =>
    Stmt.branch condition.tree (body.tree known) (arms.tree (known.after body.mentions))
  | _, whileInside condition body, known => Stmt.loop condition.tree (body.tree known) .pre
  | _, whileBefore condition body, known => Stmt.loop condition.tree (body.tree known) .pre
  | _, counted count body, known => Stmt.counted count.tree (body.tree known)
  | _, whileAfter body condition, known => Stmt.loop condition.tree (body.tree known) .post
  | _, write value, _ => Stmt.write value.tree
  | _, read name, known => Stmt.read ⟨name, .empty 0⟩ ((known.lookup name).getD .integer)
  | _, giveBack value, _ => Stmt.giveBack (value.map Derivation.tree)
  | _, nil, _ => []
  | _, cons first rest, known => first.tree known :: rest.tree (known.after first.mentions)
  | _, done, _ => Arms.done
  | _, otherwise body, known => Arms.otherwise (body.tree known)
  | _, elseIf condition body rest, known =>
    Arms.elseIf condition.tree (body.tree known) (rest.tree (known.after body.mentions))

end Phrase

/-! ## Older declarations -/

namespace Declarations

theorem after_older (ds older : Declarations) (ms : List Mention) :
    after (ds ++ older) ms = after ds ms ++ older := by
  fun_induction after ds ms with
  | case1 => rfl
  | case2 _ _ _ _ ih => exact ih
  | case3 _ _ _ ih => exact ih

/-- A declaration that is known already is found before all older ones. -/
theorem lookup_older {ds : Declarations} (older : Declarations) {name : String}
    (h : (List.lookup name ds).isSome = true) :
    (ds ++ older).lookup name = List.lookup name ds := by
  rw [List.lookup_append]
  exact Option.or_of_isSome h

theorem cover_older {ds : Declarations} (older : Declarations) {ms : List Mention}
    (h : ds.Cover ms) : Cover (ds ++ older) ms := by
  fun_induction Cover ds ms with
  | case1 => trivial
  | case2 _ _ _ _ ih => exact ih h
  | case3 ds name rest ih => exact ⟨by rw [lookup_older older h.1, h.1], ih h.2⟩

end Declarations

/-- What a phrase stands for does not depend on declarations that are older than those of all names
that it reads. -/
theorem Phrase.tree_older {c : Category} (p : Phrase c) {ds : Declarations} (older : Declarations)
    (h : ds.Cover p.mentions) : p.tree (ds ++ older) = p.tree ds := by
  induction p generalizing ds with
  | read name => rw [tree, tree, Declarations.lookup_older older h.1]
  | branch condition body arms hbody harms =>
    obtain ⟨hb, ha⟩ := (cover_append ds _ _).mp h
    rw [tree, tree, hbody hb, Declarations.after_older, harms ha]
  | cons first rest hfirst hrest =>
    obtain ⟨hf, hr⟩ := (cover_append ds _ _).mp h
    rw [tree, tree, hfirst hf, Declarations.after_older, hrest hr]
  | elseIf condition body rest hbody hrest =>
    obtain ⟨hb, hr⟩ := (cover_append ds _ _).mp h
    rw [tree, tree, hbody hb, Declarations.after_older, hrest hr]
  | whileInside _ body hbody | whileBefore _ body hbody | counted _ body hbody
  | whileAfter body _ hbody | otherwise body hbody => rw [tree, tree, hbody h]
  | _ => rfl

/-- The symbols of a program with the given statements. -/
def programWord (body : Phrase .block) : List Symbol :=
  .mark .programBegin :: (body.word ++ [.mark .programEnd])

end Bukvar.Grammar
