import Bukvar.Token.Rule

/-!
# Kinds and their texts

A unit is one of the fixed words, has the shape of a literal or of punctuation, or is a name.
No fixed word has the shape of a literal and no unit has two such shapes, so the order of the
rules plays no part for literals.

* `shape_unique`: a unit is a literal in one way at most.
* `classified_classify`: what a unit is, by its kind.
* `classify_of_shape`, `shape_of_classify`: the literals are the units of their shapes.
-/

namespace Bukvar.Token

/-- Whether tokens of the kind differ in more than their place. -/
def Kind.hasText : Kind → Bool
  | .name | .integerLiteral | .doubleLiteral | .stringLiteral => true
  | _ => false

/-- Whether the kind of a token before the end says all but its place. -/
def Kind.isFixed : Kind → Bool
  | .name | .integerLiteral | .doubleLiteral | .stringLiteral | .endOfInput => false
  | _ => true

/-- The shape of the literals of a kind. No unit has the shape of another kind. -/
def Kind.shape : Kind → List Char → Bool
  | .integerLiteral => isInteger
  | .doubleLiteral => isDouble
  | .stringLiteral => isString
  | _ => fun _ => false

/-- The fixed words with their kinds. -/
def fixedWords : List (String × Kind) :=
  delimiters ++ typeWords ++ keywords ++ operatorSigns

/-- The lists of fixed words. -/
def tables : List (List (String × Kind)) :=
  [delimiters, typeWords, keywords, operatorSigns]

/-- The kinds of literals. -/
def literals : List Kind :=
  [.integerLiteral, .doubleLiteral, .stringLiteral]

/-- The characters that are units of their own, with their kinds. -/
def punctuation : List (Char × Kind) :=
  [(';', .semicolon), ('(', .leftParen), (')', .rightParen)]

/-- The rule for the literals of a kind. -/
def literalRule (kind : Kind) : Rule :=
  .shape kind.shape kind

/-- The rule for a single character. -/
def punctuationRule (p : Char × Kind) : Rule :=
  .shape (· = [p.1]) p.2

theorem rules_eq :
    rules = tables.map .exact ++ literals.map literalRule ++ punctuation.map punctuationRule :=
  rfl

theorem mem_fixedWords {words : List (String × Kind)} (hwords : words ∈ tables)
    {p : String × Kind} (hp : p ∈ words) : p ∈ fixedWords := by
  have hflatten : fixedWords = tables.flatten := by
    simp [fixedWords, tables]
  rw [hflatten]
  exact List.mem_flatten_of_mem hwords hp

theorem Kind.hasText_of_isFixed {k : Kind} (h : k.isFixed = true) : k.hasText = false := by
  cases k <;> first | rfl | cases h

theorem Kind.ne_end_of_isFixed {k : Kind} (h : k.isFixed = true) : k ≠ .endOfInput := by
  rintro rfl
  cases h

/-! ## Shapes -/

theorem eq_dot_of_dropWhile {cs rest : List Char} {c : Char}
    (h : cs.dropWhile (· ≠ '.') = c :: rest) : c = '.' := by
  induction cs with
  | nil => cases h
  | cons d ds ih =>
    by_cases hd : d = '.'
    · subst hd
      exact (List.cons.inj h).1.symm
    · rw [List.dropWhile_cons_of_pos (by simp [hd])] at h
      exact ih h

theorem exists_of_isDouble {unit : List Char} (h : isDouble unit = true) :
    ∃ whole fraction, withoutMinus unit = whole ++ '.' :: fraction ∧ isDigits whole = true ∧
      isDigits fraction = true := by
  have hsplit := @List.takeWhile_append_dropWhile _ (· ≠ '.') (withoutMinus unit)
  unfold isDouble at h
  dsimp only at h
  split at h
  next => cases h
  next c fraction heq =>
    rw [Bool.and_eq_true] at h
    rw [heq, eq_dot_of_dropWhile heq] at hsplit
    exact ⟨_, fraction, hsplit.symm, h⟩

theorem mem_withoutMinus {unit : List Char} {c : Char} (h : c ∈ unit) (hc : c ≠ '-') :
    c ∈ withoutMinus unit := by
  unfold withoutMinus
  split
  next cs =>
    rcases List.mem_cons.mp h with rfl | h
    · exact absurd rfl hc
    · exact h
  next => exact h

/-- A double literal holds digits and points, and a minus sign. -/
theorem isDigit_of_isDouble {unit : List Char} (h : isDouble unit = true) {c : Char}
    (hmem : c ∈ unit) (hminus : c ≠ '-') (hdot : c ≠ '.') : c.isDigit = true := by
  obtain ⟨whole, fraction, hunit, hwhole, hfraction⟩ := exists_of_isDouble h
  rw [isDigits, Bool.and_eq_true, List.all_eq_true] at hwhole hfraction
  have hmem' := mem_withoutMinus hmem hminus
  rw [hunit, List.mem_append, List.mem_cons] at hmem'
  rcases hmem' with hc | hc | hc
  · exact hwhole.2 c hc
  · exact absurd hc hdot
  · exact hfraction.2 c hc

theorem isInteger_of_isDouble {unit : List Char} (h : isDouble unit = true) :
    isInteger unit = false := by
  obtain ⟨whole, fraction, hunit, -⟩ := exists_of_isDouble h
  rw [isInteger, isDigits, Bool.and_eq_false_iff, hunit]
  apply Or.inr
  rw [List.all_eq_false]
  exact ⟨'.', by simp, by decide⟩

theorem isNumber_quote (cs : List Char) :
    isInteger ('"' :: cs) = false ∧ isDouble ('"' :: cs) = false := by
  refine ⟨by simp [isInteger, withoutMinus, isDigits], ?_⟩
  unfold isDouble
  simp only [withoutMinus]
  split
  · rfl
  · simp [isDigits]

theorem exists_of_isString {unit : List Char} (h : isString unit = true) :
    ∃ body, unit = '"' :: body ++ ['"'] := by
  unfold isString at h
  split at h
  next cs =>
    obtain ⟨body, rfl⟩ := List.getLast?_eq_some_iff.mp (of_decide_eq_true h)
    exact ⟨body, rfl⟩
  next => cases h

theorem isString_quoted (body : List Char) : isString ('"' :: body ++ ['"']) = true := by
  simp [isString]

theorem isNumber_of_isString {unit : List Char} (h : isString unit = true) :
    isInteger unit = false ∧ isDouble unit = false := by
  obtain ⟨body, rfl⟩ := exists_of_isString h
  exact isNumber_quote _

theorem shape_cases {unit : List Char} {kind : Kind} (h : kind.shape unit = true) :
    kind = .integerLiteral ∧ isInteger unit = true ∨
      kind = .doubleLiteral ∧ isInteger unit = false ∧ isDouble unit = true ∨
      kind = .stringLiteral ∧ isInteger unit = false ∧ isDouble unit = false ∧
        isString unit = true := by
  cases kind with
  | integerLiteral => exact .inl ⟨rfl, h⟩
  | doubleLiteral => exact .inr (.inl ⟨rfl, isInteger_of_isDouble h, h⟩)
  | stringLiteral =>
    obtain ⟨hi, hd⟩ := isNumber_of_isString h
    exact .inr (.inr ⟨rfl, hi, hd, h⟩)
  | _ => cases h

theorem mem_literals_of_shape {unit : List Char} {kind : Kind} (h : kind.shape unit = true) :
    kind ∈ literals := by
  rcases shape_cases h with ⟨rfl, -⟩ | ⟨rfl, -⟩ | ⟨rfl, -⟩ <;> decide

/-- A unit has the shape of one kind at most. -/
theorem shape_unique {unit : List Char} {kind kind' : Kind} (h : kind.shape unit = true)
    (h' : kind'.shape unit = true) : kind = kind' := by
  rcases shape_cases h with ⟨rfl, hs⟩ | ⟨rfl, hs⟩ | ⟨rfl, hs⟩ <;>
    rcases shape_cases h' with ⟨rfl, hs'⟩ | ⟨rfl, hs'⟩ | ⟨rfl, hs'⟩ <;> simp_all

/-! ## Classification -/

theorem mem_of_lookup {words : List (String × Kind)} {unit : String} {kind : Kind}
    (h : words.lookup unit = some kind) : (unit, kind) ∈ words := by
  obtain ⟨before, after, rfl, -⟩ := List.lookup_eq_some_iff.mp h
  simp

theorem kind?_shape {accepts : List Char → Bool} {unit : String} {kind kind' : Kind}
    (h : (Rule.shape accepts kind).kind? unit = some kind') :
    accepts unit.toList = true ∧ kind' = kind := by
  simp only [Rule.kind?] at h
  split at h
  next hs =>
    cases h
    exact ⟨hs, rfl⟩
  next => cases h

theorem isFixed_of_mem_fixedWords : ∀ p ∈ fixedWords, p.2.isFixed = true := by
  decide

/-- The unit has the shape of no literal. -/
def Shapeless (unit : List Char) : Prop :=
  isInteger unit = false ∧ isDouble unit = false ∧ isString unit = false

instance (unit : List Char) : Decidable (Shapeless unit) :=
  inferInstanceAs (Decidable (_ ∧ _ ∧ _))

theorem shape_of_shapeless {unit : List Char} (h : Shapeless unit) (kind : Kind) :
    kind.shape unit = false := by
  obtain ⟨hi, hd, hs⟩ := h
  cases kind <;> simp_all [Kind.shape]

theorem shapeless_of_mem_fixedWords : ∀ p ∈ fixedWords, Shapeless p.1.toList := by
  decide

/-- What a unit of a kind is. -/
inductive Classified (unit : String) : Kind → Prop
  | fixed {kind : Kind} (h : (unit, kind) ∈ fixedWords) : Classified unit kind
  | literal {kind : Kind} (h : kind.shape unit.toList = true) : Classified unit kind
  | punctuation {p : Char × Kind} (hp : p ∈ punctuation) (h : unit.toList = [p.1]) :
    Classified unit p.2
  | name (h : Shapeless unit.toList) : Classified unit .name

theorem classified_classify (unit : String) : Classified unit (classify unit) := by
  unfold classify
  cases hfind : rules.findSome? (Rule.kind? unit) with
  | none =>
    have hshape : ∀ kind ∈ literals, kind.shape unit.toList = false := by
      intro kind hkind
      have hrule : literalRule kind ∈ rules := by
        simp [rules_eq, List.mem_map_of_mem hkind]
      simpa [literalRule, Rule.kind?] using List.findSome?_eq_none_iff.mp hfind _ hrule
    exact .name ⟨hshape .integerLiteral (by decide), hshape .doubleLiteral (by decide),
      hshape .stringLiteral (by decide)⟩
  | some kind =>
    obtain ⟨rule, hrule, haccepts⟩ := List.exists_of_findSome?_eq_some hfind
    simp only [rules_eq, List.mem_append, List.mem_map] at hrule
    rcases hrule with (⟨words, hwords, rfl⟩ | ⟨literal, -, rfl⟩) | ⟨p, hp, rfl⟩
    · exact .fixed (mem_fixedWords hwords (mem_of_lookup haccepts))
    · obtain ⟨hshape, rfl⟩ := kind?_shape haccepts
      exact .literal hshape
    · obtain ⟨hunit, rfl⟩ := kind?_shape haccepts
      exact .punctuation hp (of_decide_eq_true hunit)

/-- A unit has the shape of its kind, or no shape of a literal and then it is a name or its
kind says what it is. -/
theorem classify_cases (unit : String) :
    (classify unit).shape unit.toList = true ∨
      Shapeless unit.toList ∧ (classify unit = .name ∨ (classify unit).isFixed = true) := by
  have hclassified := classified_classify unit
  generalize classify unit = kind at hclassified ⊢
  cases hclassified with
  | @fixed kind h =>
    have hfixed := isFixed_of_mem_fixedWords (unit, kind) h
    exact .inr ⟨shapeless_of_mem_fixedWords (unit, kind) h, .inr hfixed⟩
  | literal h => exact .inl h
  | @punctuation p hp h =>
    have hall : ∀ q ∈ punctuation, Shapeless [q.1] ∧ q.2.isFixed = true := by decide
    obtain ⟨hshapeless, hfixed⟩ := hall p hp
    exact .inr ⟨h ▸ hshapeless, .inr hfixed⟩
  | name h => exact .inr ⟨h, .inl rfl⟩

theorem classify_of_shape {unit : String} {kind : Kind} (h : kind.shape unit.toList = true) :
    classify unit = kind := by
  rcases classify_cases unit with hs | ⟨hs, -⟩
  · exact shape_unique hs h
  · rw [shape_of_shapeless hs kind] at h
    cases h

theorem shape_of_classify {unit : String} (htext : (classify unit).hasText = true)
    (hname : classify unit ≠ .name) : (classify unit).shape unit.toList = true := by
  rcases classify_cases unit with hs | ⟨-, hc | hc⟩
  · exact hs
  · exact absurd hc hname
  · rw [Kind.hasText_of_isFixed hc] at htext
    cases htext

theorem classify_ne_endOfInput (unit : String) : classify unit ≠ .endOfInput := by
  rcases classify_cases unit with hs | ⟨-, hc | hc⟩
  · intro h
    rw [h] at hs
    cases hs
  · rw [hc]
    decide
  · exact Kind.ne_end_of_isFixed hc

end Bukvar.Token
