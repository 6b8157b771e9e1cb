import Bukvar.Proofs.Token.Classification
import Bukvar.Proofs.Token.Units

/-!
# No unit fits two rules

The rules are tried in order, but a unit that one of them accepts is refused by all others, so the
order plays no part. A rule that lists what it accepts is compared with the others on its list. The
shapes of literals accept infinitely many units; they differ in their characters.

The splitting of a source and the classification look for quotes, parentheses and semicolons
independently of each other. On the units of a source they agree: what was cut off at a closing
quote is what has the shape of a string, and what was cut off as a single character is punctuation.

* `pairwise_apart_rules`: any two rules are apart.
* `findSome?_eq_of_perm`: why the order plays no part.
* `quoted_or_standalone_or_word`: the three ways in which a unit of a source is cut off.
* `classification_unambiguous`: the order of the rules, and the kinds of units by the cut.
-/

namespace Bukvar.Token

open Text (byteLength)

/-! ## Rules that are apart -/

/-- No unit fits both rules. -/
def Rule.Apart (r s : Rule) : Prop :=
  ∀ unit, r.kind? unit = none ∨ s.kind? unit = none

theorem Rule.Apart.symm {r s : Rule} (h : r.Apart s) : s.Apart r :=
  fun unit => (h unit).symm

/-- A list of words is apart from a rule that refuses all of them. -/
theorem apart_exact {words : List (String × Kind)} {r : Rule}
    (h : ∀ p ∈ words, r.kind? p.1 = none) : (Rule.exact words).Apart r := by
  intro unit
  cases hlookup : words.lookup unit with
  | none => exact .inl hlookup
  | some kind => exact .inr (h _ (mem_of_lookup hlookup))

theorem kind?_eq_none_of_shape {accepts : List Char → Bool} {kind : Kind} {unit : String}
    (h : accepts unit.toList = false) : (Rule.shape accepts kind).kind? unit = none := by
  rw [Rule.kind?, if_neg (by simp [h])]

/-- A rule for a single character is apart from a rule that refuses it. -/
theorem apart_punctuation {p : Char × Kind} {r : Rule} (h : r.kind? (.ofList [p.1]) = none) :
    (punctuationRule p).Apart r := by
  intro unit
  by_cases hunit : unit.toList = [p.1]
  · rw [← hunit, String.ofList_toList] at h
    exact .inr h
  · exact .inl (kind?_eq_none_of_shape (by simpa using hunit))

theorem apart_literal {kind kind' : Kind} (h : kind ≠ kind') :
    (literalRule kind).Apart (literalRule kind') := by
  intro unit
  by_cases hshape : kind.shape unit.toList = true
  · refine .inr (kind?_eq_none_of_shape ?_)
    rw [Bool.eq_false_iff]
    intro hshape'
    exact h (shape_unique hshape hshape')
  · exact .inl (kind?_eq_none_of_shape (by simpa using hshape))

theorem apart_exact_literal {words : List (String × Kind)} (hwords : words ∈ tables)
    (kind : Kind) : (Rule.exact words).Apart (literalRule kind) := by
  apply apart_exact
  intro p hp
  have hshapeless := shapeless_of_mem_fixedWords p (mem_fixedWords hwords hp)
  exact kind?_eq_none_of_shape (shape_of_shapeless hshapeless kind)

theorem pairwise_apart_rules : rules.Pairwise Rule.Apart := by
  -- What is listed can be evaluated; the shapes of literals are left to `shape_unique`.
  have htables : tables.Pairwise fun v w => ∀ p ∈ v, (Rule.exact w).kind? p.1 = none := by
    decide
  have hliterals : literals.Pairwise (· ≠ ·) := by decide
  have hpunctuation :
      punctuation.Pairwise fun p q => (punctuationRule q).kind? (.ofList [p.1]) = none := by
    decide
  have hothers : ∀ r ∈ tables.map Rule.exact ++ literals.map literalRule, ∀ p ∈ punctuation,
      r.kind? (.ofList [p.1]) = none := by
    decide
  rw [rules_eq]
  refine List.pairwise_append.mpr ⟨List.pairwise_append.mpr ⟨?_, ?_, ?_⟩, ?_, ?_⟩
  · exact List.pairwise_map.mpr (htables.imp apart_exact)
  · exact List.pairwise_map.mpr (hliterals.imp apart_literal)
  · intro r hr s hs
    obtain ⟨words, hwords, rfl⟩ := List.mem_map.mp hr
    obtain ⟨kind, -, rfl⟩ := List.mem_map.mp hs
    exact apart_exact_literal hwords kind
  · exact List.pairwise_map.mpr (hpunctuation.imp apart_punctuation)
  · intro r hr s hs
    obtain ⟨p, hp, rfl⟩ := List.mem_map.mp hs
    exact (apart_punctuation (hothers r hr p hp)).symm

/-! ## The order of rules -/

/-- Of rules that are apart, one at most accepts a unit. -/
theorem length_filterMap_le_one {rs : List Rule} (h : rs.Pairwise Rule.Apart) (unit : String) :
    (rs.filterMap (Rule.kind? unit)).length ≤ 1 := by
  induction h with
  | nil => exact Nat.zero_le 1
  | @cons r rs hr _ ih =>
    cases hkind : r.kind? unit with
    | none => rwa [List.filterMap_cons_none hkind]
    | some kind =>
      have hrest : rs.filterMap (Rule.kind? unit) = [] := by
        rw [List.filterMap_eq_nil_iff]
        intro s hs
        rcases hr s hs unit with hnone | hnone
        · rw [hkind] at hnone
          cases hnone
        · exact hnone
      rw [List.filterMap_cons_some hkind, hrest]
      exact Nat.le_refl 1

/-- Where one rule at most accepts a unit, the first one that accepts it is the only one. -/
theorem findSome?_eq_of_perm {rs rs' : List Rule} {unit : String} (hperm : rs'.Perm rs)
    (h : (rs.filterMap (Rule.kind? unit)).length ≤ 1) :
    rs'.findSome? (Rule.kind? unit) = rs.findSome? (Rule.kind? unit) := by
  have hkinds := hperm.filterMap (Rule.kind? unit)
  have hsame : rs'.filterMap (Rule.kind? unit) = rs.filterMap (Rule.kind? unit) := by
    generalize rs.filterMap (Rule.kind? unit) = kinds at h hkinds
    match kinds, h with
    | [], _ => exact hkinds.eq_nil
    | [kind], _ => exact List.perm_singleton.mp hkinds
  rw [← List.head?_filterMap, ← List.head?_filterMap, hsame]

/-! ## Punctuation -/

theorem isStandalone_eq_true_iff {c : Char} :
    isStandalone c = true ↔ ∃ p ∈ punctuation, p.1 = c := by
  constructor
  · intro h
    simp only [isStandalone, Bool.or_eq_true, decide_eq_true_eq] at h
    rcases h with (rfl | rfl) | rfl
    · exact ⟨(';', .semicolon), by decide, rfl⟩
    · exact ⟨('(', .leftParen), by decide, rfl⟩
    · exact ⟨(')', .rightParen), by decide, rfl⟩
  · rintro ⟨p, hp, rfl⟩
    have hall : ∀ q ∈ punctuation, isStandalone q.1 = true := by decide
    exact hall p hp

/-- The kind of a single character that stands alone, and of no other unit. -/
theorem classify_eq_punctuation_iff {unit : String} {p : Char × Kind} (hp : p ∈ punctuation) :
    classify unit = p.2 ↔ unit.toList = [p.1] := by
  constructor
  · intro hkind
    have hclassified := classified_classify unit
    generalize classify unit = kind at hkind hclassified
    cases hclassified with
    | fixed h =>
      have hfixed : ∀ q ∈ punctuation, q.2 ∉ fixedWords.map Prod.snd := by decide
      exact absurd (hkind ▸ List.mem_map_of_mem h) (hfixed p hp)
    | literal h =>
      have hliteral : ∀ q ∈ punctuation, q.2 ∉ literals := by decide
      rw [hkind] at h
      exact absurd (mem_literals_of_shape h) (hliteral p hp)
    | @punctuation q hq h =>
      have hdistinct : ∀ q ∈ punctuation, ∀ q' ∈ punctuation, q.2 = q'.2 → q = q' := by decide
      rwa [hdistinct q hq p hp hkind] at h
    | name h =>
      have hname : ∀ q ∈ punctuation, Kind.name ≠ q.2 := by decide
      exact absurd hkind (hname p hp)
  · intro hunit
    have hself : ∀ q ∈ punctuation, classify (.ofList [q.1]) = q.2 := by decide
    rw [← hself p hp, ← hunit, String.ofList_toList]

/-! ## How the units of a source are cut off -/

/-- The kind of a unit. -/
def Lexeme.kind (l : Lexeme) : Kind :=
  classify (.ofList l.text)

/-- The text from the start of the unit on is `rest`. -/
def Lexeme.From (offset : Nat) (cs rest : List Char) (l : Lexeme) : Prop :=
  ∃ before, cs = before ++ rest ∧ l.offset = offset + byteLength before

/-- The unit starts with a quote and was cut off behind the quote that closes it. -/
def Lexeme.Quoted (offset : Nat) (cs : List Char) (l : Lexeme) : Prop :=
  ∃ rest cut, l.From offset cs ('"' :: rest) ∧ closeQuote? rest = some cut ∧
    l.text = '"' :: cut.taken

/-- The unit is a character that always is one. -/
def Lexeme.Standalone (offset : Nat) (cs : List Char) (c : Char) (l : Lexeme) : Prop :=
  isStandalone c = true ∧ ∃ rest, l.From offset cs (c :: rest) ∧ l.text = [c]

/-- The unit was cut off at the end of a word. -/
def Lexeme.Word (offset : Nat) (cs : List Char) (l : Lexeme) : Prop :=
  ∃ first rest, l.From offset cs (first :: rest) ∧ isStandalone first = false ∧
    (first = '"' → closeQuote? rest = none) ∧ l.text = first :: (cutWord rest).taken

variable {offset : Nat} {cs : List Char} {l : Lexeme}

theorem exists_cutUnit_of_mem_lexemes (h : l ∈ lexemes offset cs) :
    ∃ first rest, l.From offset cs (first :: rest) ∧
      l.text = first :: (cutUnit first rest).taken := by
  fun_induction lexemes offset cs with
  | case1 => cases h
  | case2 offset c cs hc ih =>
    obtain ⟨first, rest, ⟨before, rfl, hoffset⟩, htext⟩ := ih h
    refine ⟨first, rest, ⟨c :: before, rfl, ?_⟩, htext⟩
    rw [hoffset, Text.byteLength_cons, Nat.add_assoc]
  | case3 offset c cs hc ih =>
    rcases List.mem_cons.mp h with rfl | h
    · exact ⟨c, cs, ⟨[], rfl, rfl⟩, rfl⟩
    · obtain ⟨first, rest, ⟨before, hrest, hoffset⟩, htext⟩ := ih h
      refine ⟨first, rest, ⟨c :: (cutUnit c cs).taken ++ before, ?_, ?_⟩, htext⟩
      · rw [List.cons_append, List.cons_append, List.append_assoc, ← hrest, append_cutUnit]
      · rw [hoffset, Text.byteLength_append, Nat.add_assoc]

/-- The ways in which a unit of a text is cut off. -/
theorem quoted_or_standalone_or_word (h : l ∈ lexemes offset cs) :
    l.Quoted offset cs ∨ (∃ c, l.Standalone offset cs c) ∨ l.Word offset cs := by
  obtain ⟨first, rest, hfrom, htext⟩ := exists_cutUnit_of_mem_lexemes h
  unfold cutUnit at htext
  by_cases hstandalone : isStandalone first = true
  · rw [if_pos hstandalone] at htext
    exact .inr (.inl ⟨first, hstandalone, rest, hfrom, htext⟩)
  · rw [if_neg hstandalone] at htext
    have hword : isStandalone first = false := by simpa using hstandalone
    by_cases hquote : first = '"'
    · rw [if_pos hquote] at htext
      cases hclose : closeQuote? rest with
      | none =>
        rw [hclose] at htext
        exact .inr (.inr ⟨first, rest, hfrom, hword, fun _ => hclose, htext⟩)
      | some cut =>
        rw [hclose] at htext
        subst hquote
        exact .inl ⟨rest, cut, hfrom, hclose, htext⟩
    · rw [if_neg hquote] at htext
      exact .inr (.inr ⟨first, rest, hfrom, hword, fun he => absurd he hquote, htext⟩)

/-! ## Kinds by the cut -/

theorem kind_of_quoted (h : l.Quoted offset cs) : l.kind = .stringLiteral := by
  obtain ⟨rest, cut, -, hclose, htext⟩ := h
  obtain ⟨body, hbody⟩ : ∃ body, cut.taken = body ++ ['"'] := by
    unfold closeQuote? at hclose
    split at hclose
    · cases hclose
      exact ⟨_, rfl⟩
    · cases hclose
  apply classify_of_shape
  rw [String.toList_ofList, htext, hbody]
  exact isString_quoted body

theorem kind_eq_punctuation_iff {p : Char × Kind} (hp : p ∈ punctuation) :
    l.kind = p.2 ↔ l.text = [p.1] := by
  rw [Lexeme.kind, classify_eq_punctuation_iff hp, String.toList_ofList]

theorem kind_ne_stringLiteral_of_word (h : l.Word offset cs) : l.kind ≠ .stringLiteral := by
  obtain ⟨first, rest, -, -, -, htext⟩ := h
  intro hkind
  have hstring : isString l.text = true := by
    have hshape := @shape_of_classify (.ofList l.text) (by rw [← Lexeme.kind, hkind]; rfl)
      (by rw [← Lexeme.kind, hkind]; decide)
    rwa [← Lexeme.kind, hkind, String.toList_ofList] at hshape
  -- The last quote of a string would stand behind the first character, where words have none.
  obtain ⟨body, hbody⟩ := exists_of_isString hstring
  rw [htext, List.cons_append, List.cons.injEq] at hbody
  have hquote : '"' ∈ (cutWord rest).taken := by
    rw [hbody.2]
    exact List.mem_append_right _ (List.mem_singleton_self _)
  have hinner := List.all_takeWhile (p := (!endsWord ·)) (l := rest)
  cases List.all_eq_true.mp hinner _ hquote

theorem kind_eq_stringLiteral_iff (h : l ∈ lexemes offset cs) :
    l.kind = .stringLiteral ↔ l.Quoted offset cs := by
  refine ⟨?_, kind_of_quoted⟩
  intro hkind
  rcases quoted_or_standalone_or_word h with hquoted | ⟨c, hc, rest, -, htext⟩ | hword
  · exact hquoted
  · obtain ⟨p, hp, rfl⟩ := isStandalone_eq_true_iff.mp hc
    have hstring : ∀ q ∈ punctuation, q.2 ≠ .stringLiteral := by decide
    rw [(kind_eq_punctuation_iff hp).mpr htext] at hkind
    exact absurd hkind (hstring p hp)
  · exact absurd hkind (kind_ne_stringLiteral_of_word hword)

theorem kind_eq_iff_standalone (h : l ∈ lexemes offset cs) {p : Char × Kind}
    (hp : p ∈ punctuation) : l.kind = p.2 ↔ l.Standalone offset cs p.1 := by
  constructor
  · intro hkind
    have htext := (kind_eq_punctuation_iff hp).mp hkind
    obtain ⟨first, rest, hfrom, hcut⟩ := exists_cutUnit_of_mem_lexemes h
    rw [htext, List.cons.injEq] at hcut
    rw [← hcut.1] at hfrom
    exact ⟨isStandalone_eq_true_iff.mpr ⟨p, hp, rfl⟩, rest, hfrom, htext⟩
  · rintro ⟨-, rest, -, htext⟩
    exact (kind_eq_punctuation_iff hp).mpr htext

theorem exists_standalone_iff (h : l ∈ lexemes offset cs) :
    (∃ c, l.Standalone offset cs c) ↔ ∃ p ∈ punctuation, l.kind = p.2 := by
  constructor
  · rintro ⟨c, hc⟩
    obtain ⟨p, hp, rfl⟩ := isStandalone_eq_true_iff.mp hc.1
    exact ⟨p, hp, (kind_eq_iff_standalone h hp).mpr hc⟩
  · rintro ⟨p, hp, hkind⟩
    exact ⟨p.1, (kind_eq_iff_standalone h hp).mp hkind⟩

/-- One rule at most accepts a unit, so that the rules give a unit the same kind in every order. A
unit of a source is a string literal if it was cut off at a closing quote, and punctuation if it was
cut off as a single character, and in no other case. -/
theorem classification_unambiguous (unit source : String) :
    rules.countP (fun rule => (rule.kind? unit).isSome) ≤ 1 ∧
      (∀ reordered : List Rule, reordered.Perm rules →
        (reordered.findSome? (Rule.kind? unit)).getD .name = classify unit) ∧
      ∀ l ∈ lexemes 0 source.toList,
        (l.kind = .stringLiteral ↔ l.Quoted 0 source.toList) ∧
        (l.kind = .semicolon ↔ l.Standalone 0 source.toList ';') ∧
        (l.kind = .leftParen ↔ l.Standalone 0 source.toList '(') ∧
        (l.kind = .rightParen ↔ l.Standalone 0 source.toList ')') ∧
        (l.kind = .semicolon ∨ l.kind = .leftParen ∨ l.kind = .rightParen ↔
          ∃ c, l.Standalone 0 source.toList c) ∧
        l.kind ≠ .endOfInput := by
  have hone := length_filterMap_le_one pairwise_apart_rules unit
  refine ⟨?_, ?_, ?_⟩
  · rwa [List.length_filterMap_eq_countP] at hone
  · intro reordered hperm
    rw [findSome?_eq_of_perm hperm hone]
    rfl
  · intro l hl
    refine ⟨kind_eq_stringLiteral_iff hl,
      kind_eq_iff_standalone hl (p := (';', .semicolon)) (by decide),
      kind_eq_iff_standalone hl (p := ('(', .leftParen)) (by decide),
      kind_eq_iff_standalone hl (p := (')', .rightParen)) (by decide), ?_,
      classify_ne_endOfInput (.ofList l.text)⟩
    rw [exists_standalone_iff hl]
    simp [punctuation]

/-- A number that starts like a difference, with the rules in reverse. In the text a string and a
semicolon stand next to each other, and the quote behind them is left open. -/
theorem classification_unambiguous_openQuote :
    rules.reverse.Perm rules ∧
      (rules.reverse.findSome? (Rule.kind? "-5")).getD .name = .integerLiteral ∧
      rules.countP (fun rule => (rule.kind? "-5").isSome) ≤ 1 ∧
      lexemes 0 "\"да\";\"x".toList =
        [⟨0, ['"', 'д', 'а', '"']⟩, ⟨6, [';']⟩, ⟨7, ['"', 'x']⟩] ∧
      Lexeme.Quoted 0 "\"да\";\"x".toList ⟨0, ['"', 'д', 'а', '"']⟩ ∧
      Lexeme.Standalone 0 "\"да\";\"x".toList ';' ⟨6, [';']⟩ ∧
      ¬ Lexeme.Quoted 0 "\"да\";\"x".toList ⟨7, ['"', 'x']⟩ := by
  obtain ⟨hone, horder, hunits⟩ := classification_unambiguous "-5" "\"да\";\"x"
  have hlexemes : lexemes 0 "\"да\";\"x".toList =
      [⟨0, ['"', 'д', 'а', '"']⟩, ⟨6, [';']⟩, ⟨7, ['"', 'x']⟩] := by
    decide +kernel
  rw [hlexemes] at hunits
  have hperm := List.reverse_perm rules
  refine ⟨hperm, (horder _ hperm).trans (by decide), hone, hlexemes, ?_, ?_, ?_⟩
  · exact (hunits ⟨0, ['"', 'д', 'а', '"']⟩ (by simp)).1.mp (by decide)
  · exact (hunits ⟨6, [';']⟩ (by simp)).2.1.mp (by decide)
  · intro hquoted
    exact absurd ((hunits ⟨7, ['"', 'x']⟩ (by simp)).1.mpr hquoted) (by decide)

end Bukvar.Token
