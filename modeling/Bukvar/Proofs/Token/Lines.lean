import Bukvar.Proofs.Parsing.Source

/-!
# Texts on lines behind each other

No unit goes beyond the end of its line, and the search for a closing quote ends there too. So the
units of a text with a newline in it are those of the two parts, whatever stands in them, even if a
quote is left open.

* `lexemes_newline`: units with their places.
* `Lexed.newline`, `exists_lexed`: tokens with their places.
-/

namespace Bukvar.Token

open Text (byteLength)

/-! ## Units -/

/-- A line ends at its newline. -/
theorem takeWhile_newline (cs more : List Char) :
    (cs ++ '\n' :: more).takeWhile (· ≠ '\n') = cs.takeWhile (· ≠ '\n') := by
  induction cs with
  | nil => rfl
  | cons c cs ih => rw [List.cons_append, List.takeWhile_cons, List.takeWhile_cons, ih]

/-- A unit stays what it is if another line follows. -/
theorem UnitBefore.newline {after text : List Char} (h : UnitBefore after text)
    (more : List Char) : UnitBefore (after ++ '\n' :: more) text := by
  cases h with
  | standalone h => exact .standalone h
  | quoted h => exact .quoted h
  | @word c cs characters inner opening ending =>
    refine .word characters inner ?_ ?_
    · intro hquote
      rw [← List.append_assoc, takeWhile_newline]
      exact opening hquote
    · cases after with
      | nil =>
        rintro _ ⟨⟩
        exact .inl (by decide)
      | cons x after => exact ending

theorem cutUnit_newline {c : Char} (cs more : List Char) (hblank : Text.isBlank c = false) :
    cutUnit c (cs ++ '\n' :: more) =
      ⟨(cutUnit c cs).taken, (cutUnit c cs).rest ++ '\n' :: more⟩ := by
  have hunit := (unitBefore_cutUnit cs hblank).newline more
  rw [← cutUnit_append hunit, ← List.append_assoc, append_cutUnit]

/-- The units on both sides of a newline. -/
theorem lexemes_newline (offset : Nat) (cs more : List Char) :
    lexemes offset (cs ++ '\n' :: more) =
      lexemes offset cs ++ lexemes (offset + byteLength cs + 1) more := by
  fun_induction lexemes offset cs with
  | case1 offset =>
    rw [List.nil_append, lexemes_blank offset more (by decide)]
    rfl
  | case2 offset c cs hc ih =>
    rw [List.cons_append, lexemes_blank offset _ hc, ih, Text.byteLength_cons]
    simp only [Nat.add_assoc]
  | case3 offset c cs hc ih =>
    have hc : Text.isBlank c = false := by simpa using hc
    have hcut := congrArg byteLength (append_cutUnit c cs)
    rw [Text.byteLength_append] at hcut
    have hoffset : offset + byteLength (c :: (cutUnit c cs).taken) +
        byteLength (cutUnit c cs).rest = offset + byteLength (c :: cs) := by
      rw [Text.byteLength_cons, Text.byteLength_cons]
      omega
    rw [List.cons_append, lexemes_unit offset _ hc, cutUnit_newline cs more hc, ih, hoffset,
      List.cons_append]

theorem offset_le_of_mem_lexemes {offset : Nat} {cs : List Char} {l : Lexeme}
    (h : l ∈ lexemes offset cs) : offset ≤ l.offset := by
  fun_induction lexemes offset cs with
  | case1 => simp at h
  | case2 offset c cs hc ih =>
    have := ih h
    omega
  | case3 offset c cs hc ih =>
    rcases List.mem_cons.mp h with rfl | h
    · exact Nat.le_refl _
    · have := ih h
      omega

theorem units_newline (cs more : List Char) :
    units (cs ++ '\n' :: more) = units cs ++ units more := by
  rw [units, lexemes_newline, List.map_append, map_text_lexemes _ 0 more]
  rfl

/-- A text that is one word. -/
theorem units_eq_singleton {w : List Char} (hne : w ≠ []) (hw : w.all (!endsWord ·) = true) :
    units w = [w] := by
  have hword : ∀ c ∈ w, endsWord c = false := by simpa using hw
  rw [← List.append_nil w, units_word hne hword separated_nil, units_nil, List.append_nil]

/-! ## Tokens -/

/-- The tokens of a text that starts at an offset. -/
def Lexed (offset : Nat) (cs : List Char) (ts : List Token) : Prop :=
  (lexemes offset cs).mapM Lexeme.toToken = .ok ts

theorem Lexed.newline {offset : Nat} {cs more : List Char} {ts us : List Token}
    (hts : Lexed offset cs ts) (hus : Lexed (offset + byteLength cs + 1) more us) :
    Lexed offset (cs ++ '\n' :: more) (ts ++ us) := by
  unfold Lexed at hts hus ⊢
  rw [lexemes_newline, List.mapM_append, hts, hus]
  rfl

/-- A text of less than four gigabytes has tokens, and they lie within it. -/
theorem exists_lexed (offset : Nat) {cs : List Char} (h : byteLength cs < Span.limit) :
    ∃ ts, Lexed offset cs ts ∧ ∀ t ∈ ts, t.span.Within offset := by
  have hlexemes : ∀ l ∈ lexemes offset cs, byteLength l.text < Span.limit := by
    intro l hl
    have hle := hi_le_of_mem_lexemes hl
    have hge := offset_le_of_mem_lexemes hl
    omega
  obtain ⟨ts, hts, -⟩ := exists_mapM_toToken hlexemes
  refine ⟨ts, hts, ?_⟩
  intro t ht
  obtain ⟨l, hl, htoken⟩ := (mapM_toToken hts).2 t ht
  obtain ⟨-, hlo, hhi⟩ := toToken_eq_ok htoken
  have hle := hi_le_of_mem_lexemes hl
  have hge := offset_le_of_mem_lexemes hl
  exact ⟨by omega, by omega⟩

end Bukvar.Token
