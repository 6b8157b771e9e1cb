import Bukvar.Token.Lexeme

/-!
# The units of a text

`units` are the texts of the units that a text is split into. They do not depend on where the
text starts, and can be read off a text that is put together from units. Whether a word may start
with a quote depends on the whole rest of its line, so the form of a unit is stated together with
the text behind it (`UnitBefore`).

* `cutUnit_append`, `unitBefore_cutUnit`: a unit is cut off exactly where the form says.
* `isUnit_of_mem_units`: a unit is a standalone character, a closed string or a word.
* `units_standalone`, `units_quoted`, `units_word`: the first unit of a text, by its form.
* `units_lines`: the units of a text with one of them on each line.
* `hi_le_of_mem_lexemes`: units lie within their text.
-/

namespace Bukvar.Token

open Text (isBlank)

/-- The texts of the units of a text. -/
def units (cs : List Char) : List (List Char) :=
  (lexemes 0 cs).map Lexeme.text

theorem map_text_lexemes (m n : Nat) (cs : List Char) :
    (lexemes m cs).map Lexeme.text = (lexemes n cs).map Lexeme.text := by
  fun_induction lexemes m cs generalizing n with
  | case1 => rw [lexemes_nil]
  | case2 m c cs hc ih =>
    rw [lexemes_blank n cs hc]
    exact ih (n + c.utf8Size)
  | case3 m c cs hc ih =>
    rw [lexemes_unit n cs (by simpa using hc), List.map_cons, List.map_cons, ih]

@[simp] theorem units_nil : units [] = [] := by
  rw [units, lexemes_nil, List.map_nil]

theorem units_blank {c : Char} (cs : List Char) (h : Text.isBlank c = true) :
    units (c :: cs) = units cs := by
  rw [units, lexemes_blank 0 cs h]
  exact map_text_lexemes _ 0 cs

theorem units_cons {c : Char} (cs : List Char) (h : Text.isBlank c = false) :
    units (c :: cs) = (c :: (cutUnit c cs).taken) :: units (cutUnit c cs).rest := by
  rw [units, lexemes_unit 0 cs h, List.map_cons, map_text_lexemes _ 0]
  rfl

theorem hi_le_of_mem_lexemes {offset : Nat} {cs : List Char} {l : Lexeme}
    (h : l ∈ lexemes offset cs) :
    l.offset + Text.byteLength l.text ≤ offset + Text.byteLength cs := by
  fun_induction lexemes offset cs with
  | case1 => simp at h
  | case2 offset c cs hc ih =>
    have := ih h
    rw [Text.byteLength_cons]
    omega
  | case3 offset c cs hc ih =>
    have hcut := congrArg Text.byteLength (append_cutUnit c cs)
    rw [Text.byteLength_append] at hcut
    rcases List.mem_cons.mp h with rfl | h
    · simp only [Text.byteLength_cons]
      omega
    · have := ih h
      rw [Text.byteLength_cons] at this ⊢
      omega

theorem byteLength_le_of_mem_units {cs u : List Char} (h : u ∈ units cs) :
    Text.byteLength u ≤ Text.byteLength cs := by
  obtain ⟨l, hl, rfl⟩ := List.mem_map.mp h
  have := hi_le_of_mem_lexemes hl
  omega

/-! ## The form of a unit where it stands -/

/-- The forms of a unit that has the text `after` behind it. -/
inductive UnitBefore (after : List Char) : List Char → Prop
  | standalone {c : Char} (h : isStandalone c = true) : UnitBefore after [c]
  | quoted {body : List Char} (h : ∀ c ∈ body, c ≠ '"' ∧ c ≠ '\n') :
    UnitBefore after ('"' :: body ++ ['"'])
  /-- A word holds no quote, except that it starts with one if its line has no other. It goes
  on as far as it can. -/
  | word {c : Char} {cs : List Char}
    (characters : ∀ x ∈ c :: cs, isBlank x = false ∧ isStandalone x = false)
    (inner : '"' ∉ cs) (opening : c = '"' → '"' ∉ (cs ++ after).takeWhile (· ≠ '\n'))
    (ending : ∀ x ∈ after.head?, isBlank x = true ∨ isStandalone x = true ∨ x = '"') :
    UnitBefore after (c :: cs)

theorem isBlank_of_isStandalone {c : Char} (h : isStandalone c = true) : isBlank c = false := by
  simp only [isStandalone, Bool.or_eq_true, decide_eq_true_eq] at h
  rcases h with (rfl | rfl) | rfl <;> decide

theorem endsWord_eq_true_iff {c : Char} :
    endsWord c = true ↔ isBlank c = true ∨ isStandalone c = true ∨ c = '"' := by
  simp [endsWord, or_assoc]

theorem endsWord_eq_false_iff {c : Char} :
    endsWord c = false ↔ (isBlank c = false ∧ isStandalone c = false) ∧ c ≠ '"' := by
  simp [endsWord]

theorem closeQuote?_eq_none_iff (cs : List Char) :
    closeQuote? cs = none ↔ '"' ∉ cs.takeWhile (· ≠ '\n') := by
  induction cs with
  | nil => simp [closeQuote?]
  | cons c cs ih =>
    by_cases hquote : c = '"'
    · subst hquote
      simp [closeQuote?, endsQuote]
    · by_cases hline : c = '\n'
      · subst hline
        simp [closeQuote?, endsQuote]
      · have hc : endsQuote c = false := by simp [endsQuote, hquote, hline]
        have hskip : closeQuote? (c :: cs) = none ↔ closeQuote? cs = none := by
          simp only [closeQuote?, List.dropWhile_cons, hc, Bool.not_false, if_true]
          split <;> simp_all
        rw [hskip, ih, List.takeWhile_cons_of_pos (by simpa using hline), List.mem_cons, not_or]
        exact ⟨fun h => ⟨fun he => hquote he.symm, h⟩, And.right⟩

theorem UnitBefore.exists_cons {after text : List Char} (h : UnitBefore after text) :
    ∃ c cs, text = c :: cs ∧ isBlank c = false := by
  cases h with
  | @standalone c h => exact ⟨c, [], rfl, isBlank_of_isStandalone h⟩
  | @quoted body h => exact ⟨'"', body ++ ['"'], rfl, by decide⟩
  | @word c cs characters inner opening ending =>
    exact ⟨c, cs, rfl, (characters c (List.mem_cons_self ..)).1⟩

theorem UnitBefore.ne_nil {after text : List Char} (h : UnitBefore after text) : text ≠ [] := by
  obtain ⟨c, cs, rfl, -⟩ := h.exists_cons
  exact List.cons_ne_nil c cs

/-- The characters behind the first one of a word. -/
theorem endsWord_of_inner {cs : List Char}
    (characters : ∀ x ∈ cs, isBlank x = false ∧ isStandalone x = false) (inner : '"' ∉ cs) :
    ∀ x ∈ cs, endsWord x = false := by
  intro x hx
  rw [endsWord_eq_false_iff]
  exact ⟨characters x hx, fun he => inner (he ▸ hx)⟩

theorem unitBefore_word {c : Char} {cs after : List Char} (hblank : isBlank c = false)
    (hstandalone : isStandalone c = false) (hcs : ∀ x ∈ cs, endsWord x = false)
    (hopen : c = '"' → '"' ∉ (cs ++ after).takeWhile (· ≠ '\n'))
    (hafter : ∀ x ∈ after.head?, endsWord x = true) : UnitBefore after (c :: cs) := by
  refine .word ?_ ?_ hopen ?_
  · intro x hx
    rcases List.mem_cons.mp hx with rfl | hx
    · exact ⟨hblank, hstandalone⟩
    · exact (endsWord_eq_false_iff.mp (hcs x hx)).1
  · intro hmem
    exact (endsWord_eq_false_iff.mp (hcs _ hmem)).2 rfl
  · intro x hx
    exact endsWord_eq_true_iff.mp (hafter x hx)

theorem cutWord_append {cs after : List Char} (hcs : ∀ x ∈ cs, endsWord x = false)
    (hafter : ∀ x ∈ after.head?, endsWord x = true) : cutWord (cs ++ after) = ⟨cs, after⟩ := by
  have hall : ∀ x ∈ cs, (!endsWord x) = true := fun x hx => by rw [hcs x hx]; rfl
  rw [cutWord, List.takeWhile_append_of_pos hall, List.dropWhile_append_of_pos hall]
  cases after with
  | nil => simp
  | cons x xs => simp [hafter x rfl]

/-- A unit of the right form is what is cut off. -/
theorem cutUnit_append {c : Char} {cs after : List Char} (h : UnitBefore after (c :: cs)) :
    cutUnit c (cs ++ after) = ⟨cs, after⟩ := by
  generalize htext : c :: cs = text at h
  cases h with
  | @standalone x hx =>
    cases htext
    rw [cutUnit, if_pos hx]
    rfl
  | @quoted body hbody =>
    rw [List.cons_append] at htext
    obtain ⟨rfl, rfl⟩ := List.cons.inj htext
    have hall : ∀ x ∈ body, (!endsQuote x) = true := by
      intro x hx
      simp [endsQuote, hbody x hx]
    have hclose : closeQuote? (body ++ ['"'] ++ after) = some ⟨body ++ ['"'], after⟩ := by
      rw [List.append_assoc, closeQuote?, List.dropWhile_append_of_pos hall,
        List.takeWhile_append_of_pos hall]
      simp [endsQuote]
    rw [cutUnit, if_neg (by decide), if_pos rfl, hclose]
    rfl
  | @word x xs characters inner opening ending =>
    cases htext
    have hcut : cutWord (cs ++ after) = ⟨cs, after⟩ := by
      refine cutWord_append (endsWord_of_inner ?_ inner) ?_
      · intro x hx
        exact characters x (List.mem_cons_of_mem _ hx)
      · intro x hx
        exact endsWord_eq_true_iff.mpr (ending x hx)
    rw [cutUnit, if_neg (by simp [(characters c (List.mem_cons_self ..)).2])]
    by_cases hquote : c = '"'
    · rw [if_pos hquote, (closeQuote?_eq_none_iff _).mpr (opening hquote), hcut]
      rfl
    · rw [if_neg hquote, hcut]

theorem unitBefore_cutWord {c : Char} {cs : List Char} (hblank : isBlank c = false)
    (hstandalone : isStandalone c = false) (hopen : c = '"' → closeQuote? cs = none) :
    UnitBefore (cutWord cs).rest (c :: (cutWord cs).taken) := by
  have htaken : ∀ x ∈ (cutWord cs).taken, endsWord x = false := by
    intro x hx
    have := List.all_takeWhile (p := (!endsWord ·)) (l := cs)
    simpa using List.all_eq_true.mp this x hx
  refine unitBefore_word hblank hstandalone htaken ?_ ?_
  · intro hquote
    rw [append_cutWord]
    exact (closeQuote?_eq_none_iff cs).mp (hopen hquote)
  · intro x hx
    have := List.head?_dropWhile_not (!endsWord ·) cs
    change (cs.dropWhile (!endsWord ·)).head? = some x at hx
    rw [hx] at this
    simpa using this

/-- What is cut off has the form of a unit where it stands. -/
theorem unitBefore_cutUnit {c : Char} (cs : List Char) (hblank : isBlank c = false) :
    UnitBefore (cutUnit c cs).rest (c :: (cutUnit c cs).taken) := by
  unfold cutUnit
  split
  next hs => exact .standalone hs
  next hs =>
    have hs' : isStandalone c = false := by simpa using hs
    split
    next hquote =>
      subst hquote
      cases h : closeQuote? cs with
      | none => exact unitBefore_cutWord hblank hs' fun _ => h
      | some cut =>
        unfold closeQuote? at h
        split at h
        next rest heq =>
          cases h
          refine .quoted ?_
          intro x hx
          have := List.all_takeWhile (p := (!endsQuote ·)) (l := cs)
          simpa [endsQuote] using List.all_eq_true.mp this x hx
        next => cases h
    next hquote => exact unitBefore_cutWord hblank hs' fun he => absurd he hquote

/-- The first unit of a text, with the text behind it. -/
theorem units_append {u after : List Char} (h : UnitBefore after u) :
    units (u ++ after) = u :: units after := by
  obtain ⟨c, cs, rfl, hblank⟩ := h.exists_cons
  rw [List.cons_append, units_cons _ hblank, cutUnit_append h]

/-! ## The forms of units -/

/-- The forms that a unit can have. -/
inductive IsUnit : List Char → Prop
  | standalone {c : Char} (h : isStandalone c = true) : IsUnit [c]
  | quoted {body : List Char} (h : ∀ c ∈ body, endsQuote c = false) :
    IsUnit ('"' :: body ++ ['"'])
  | word {c : Char} {cs : List Char} (hb : Text.isBlank c = false)
    (hs : isStandalone c = false) (h : ∀ x ∈ cs, endsWord x = false) : IsUnit (c :: cs)

theorem endsQuote_eq_false_iff {c : Char} : endsQuote c = false ↔ c ≠ '"' ∧ c ≠ '\n' := by
  simp [endsQuote]

theorem UnitBefore.isUnit {after u : List Char} (h : UnitBefore after u) : IsUnit u := by
  cases h with
  | standalone h => exact .standalone h
  | quoted h => exact .quoted fun c hc => endsQuote_eq_false_iff.mpr (h c hc)
  | @word c cs characters inner _ _ =>
    obtain ⟨hblank, hstandalone⟩ := characters c (List.mem_cons_self ..)
    exact .word hblank hstandalone
      (endsWord_of_inner (fun x hx => characters x (List.mem_cons_of_mem _ hx)) inner)

theorem isUnit_of_mem_units {cs u : List Char} (h : u ∈ units cs) : IsUnit u := by
  obtain ⟨l, hl, rfl⟩ := List.mem_map.mp h
  revert hl
  generalize 0 = offset
  intro hl
  fun_induction lexemes offset cs with
  | case1 => simp at hl
  | case2 offset c cs hc ih =>
    rw [units_blank cs hc] at h
    exact ih h hl
  | case3 offset c cs hc ih =>
    have hb : Text.isBlank c = false := by simpa using hc
    rcases List.mem_cons.mp hl with rfl | hl
    · exact (unitBefore_cutUnit cs hb).isUnit
    · refine ih ?_ hl
      rw [units, map_text_lexemes 0 _]
      exact List.mem_map_of_mem hl

/-! ## Texts that are put together from units -/

/-- A word that stands before the text ends there. -/
def Separated (rest : List Char) : Prop :=
  ∀ c cs, rest = c :: cs → endsWord c = true

theorem separated_nil : Separated [] := by
  intro c cs h
  cases h

theorem separated_cons {c : Char} (h : endsWord c = true) (cs : List Char) :
    Separated (c :: cs) := by
  intro x xs hx
  rw [← (List.cons.inj hx).1]
  exact h

theorem Separated.head? {rest : List Char} (h : Separated rest) :
    ∀ x ∈ rest.head?, endsWord x = true := by
  intro x hx
  obtain ⟨xs, rfl⟩ := List.head?_eq_some_iff.mp hx
  exact h x xs rfl

theorem units_standalone {c : Char} (h : isStandalone c = true) (cs : List Char) :
    units (c :: cs) = [c] :: units cs :=
  units_append (.standalone h)

theorem units_quoted {body : List Char} (h : ∀ c ∈ body, endsQuote c = false)
    (rest : List Char) :
    units ('"' :: body ++ '"' :: rest) = ('"' :: body ++ ['"']) :: units rest := by
  have hunit : UnitBefore rest ('"' :: body ++ ['"']) :=
    .quoted fun c hc => endsQuote_eq_false_iff.mp (h c hc)
  rw [← units_append hunit, List.append_assoc, List.singleton_append]

theorem units_word {w rest : List Char} (hne : w ≠ []) (hw : ∀ c ∈ w, endsWord c = false)
    (hr : Separated rest) : units (w ++ rest) = w :: units rest := by
  obtain ⟨c, cs, rfl⟩ := List.exists_cons_of_ne_nil hne
  obtain ⟨⟨hblank, hstandalone⟩, hquote⟩ :=
    endsWord_eq_false_iff.mp (hw c (List.mem_cons_self ..))
  exact units_append (unitBefore_word hblank hstandalone
    (fun x hx => hw x (List.mem_cons_of_mem _ hx)) (fun he => absurd he hquote) hr.head?)

/-! ## Units on lines -/

/-- A unit has its form at the end of a line, where a quote finds no other. -/
theorem IsUnit.unitBefore {u after : List Char} (h : IsUnit u)
    (hafter : after = [] ∨ ∃ rest, after = '\n' :: rest) : UnitBefore after u := by
  cases h with
  | standalone h => exact .standalone h
  | quoted h => exact .quoted fun c hc => endsQuote_eq_false_iff.mp (h c hc)
  | @word c cs hblank hstandalone hcs =>
    refine unitBefore_word hblank hstandalone hcs ?_ ?_
    · -- A second quote on the line would be inside the word, where there is none.
      intro _ hmem
      have hline : after.takeWhile (· ≠ '\n') = [] := by
        rcases hafter with rfl | ⟨rest, rfl⟩ <;> simp
      have hquote : '"' ∈ cs := by
        rw [List.takeWhile_append, hline, List.append_nil] at hmem
        split at hmem
        · exact hmem
        · exact List.takeWhile_subset _ hmem
      exact absurd (hcs _ hquote) (by decide)
    · rcases hafter with rfl | ⟨rest, rfl⟩
      · exact separated_nil.head?
      · exact (separated_cons (by decide) rest).head?

/-- On lines that hold one unit each or nothing, the units are those of the lines. -/
theorem units_lines {us : List (List Char)} (h : ∀ u ∈ us, u = [] ∨ IsUnit u) :
    units (['\n'].intercalate us) = us.filter (· ≠ []) := by
  induction us with
  | nil => rw [List.intercalate_nil, units_nil, List.filter_nil]
  | cons u us ih =>
    have ih := ih fun v hv => h v (List.mem_cons_of_mem _ hv)
    rcases h u (List.mem_cons_self ..) with rfl | hu
    · rw [List.filter_cons_of_neg (by simp), ← ih]
      cases us with
      | nil => rfl
      | cons v vs =>
        rw [List.intercalate_cons_cons, List.nil_append, List.singleton_append,
          units_blank _ (by decide)]
    · have hne : u ≠ [] := (hu.unitBefore (.inl rfl)).ne_nil
      rw [List.filter_cons_of_pos (by simpa using hne), ← ih]
      cases us with
      | nil =>
        rw [List.intercalate_singleton, List.intercalate_nil,
          ← units_append (hu.unitBefore (.inl rfl)), List.append_nil]
      | cons v vs =>
        rw [List.intercalate_cons_cons, List.append_assoc, List.singleton_append,
          units_append (hu.unitBefore (.inr ⟨_, rfl⟩)), units_blank _ (by decide)]

end Bukvar.Token
