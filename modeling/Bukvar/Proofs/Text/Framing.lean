import Bukvar.Text.Quoted

/-!
# Where a piece of text ends

A text that is put together from pieces can be taken apart again if each piece shows its own end.
A piece may end at a separator that does not occur in it. A quoted text ends at its second quote,
since the quotes inside are marked.

* `before_unique`: a piece with a separator behind it.
* `quoted_unique`: a quoted text with anything behind it.
-/

namespace Bukvar.Text

/-- What comes before the first separator. -/
theorem before_unique {c : Char} {as bs xs ys : List Char} (has : c ∉ as) (hbs : c ∉ bs)
    (h : as ++ c :: xs = bs ++ c :: ys) : as = bs ∧ xs = ys := by
  rcases List.append_eq_append_iff.mp h with ⟨m, rfl, hm⟩ | ⟨m, rfl, hm⟩
  · cases m with
    | nil => exact ⟨(List.append_nil _).symm, (List.cons.inj hm).2⟩
    | cons d m =>
      rw [← (List.cons.inj hm).1] at hbs
      simp at hbs
  · cases m with
    | nil => exact ⟨List.append_nil _, (List.cons.inj hm).2.symm⟩
    | cons d m =>
      rw [← (List.cons.inj hm).1] at has
      simp at has

/-! ## Code points -/

/-- The digits of base sixteen. -/
def hexadecimalDigits : List Char :=
  "0123456789abcdef".toList

/-- The number that digits of base sixteen denote. -/
def ofHexadecimal (ds : List Char) : Nat :=
  ds.foldl (fun n d => n * 16 + hexadecimalDigits.idxOf d) 0

theorem hexadecimal_eq (n : Nat) :
    hexadecimal n =
      if n < 16 then [n.digitChar] else hexadecimal (n / 16) ++ [(n % 16).digitChar] :=
  Nat.toDigits_eq_if (by decide)

theorem idxOf_digitChar {d : Nat} (h : d < 16) : hexadecimalDigits.idxOf d.digitChar = d := by
  have hall : ∀ d : Fin 16, hexadecimalDigits.idxOf d.val.digitChar = d.val := by decide
  exact hall ⟨d, h⟩

theorem ofHexadecimal_hexadecimal (n : Nat) : ofHexadecimal (hexadecimal n) = n := by
  induction n using Nat.strongRecOn with
  | ind n ih =>
    rw [hexadecimal_eq]
    split
    next h => simp [ofHexadecimal, idxOf_digitChar h]
    next h =>
      have hrest : ofHexadecimal (hexadecimal (n / 16)) = n / 16 := ih _ (by omega)
      have hlast : hexadecimalDigits.idxOf (n % 16).digitChar = n % 16 :=
        idxOf_digitChar (by omega)
      rw [ofHexadecimal] at hrest ⊢
      rw [List.foldl_append, hrest, List.foldl_cons, List.foldl_nil, hlast]
      omega

theorem mem_hexadecimalDigits {n : Nat} {c : Char} (h : c ∈ hexadecimal n) :
    c ∈ hexadecimalDigits := by
  have hall : ∀ d : Fin 16, d.val.digitChar ∈ hexadecimalDigits := by decide
  induction n using Nat.strongRecOn with
  | ind n ih =>
    rw [hexadecimal_eq] at h
    split at h
    next hn => exact List.mem_singleton.mp h ▸ hall ⟨n, hn⟩
    next hn =>
      rcases List.mem_append.mp h with h | h
      · exact ih _ (by omega) h
      · exact List.mem_singleton.mp h ▸ hall ⟨n % 16, by omega⟩

/-! ## Characters between quotes -/

/-- The characters that are written with a backslash and a mark, each with its mark. -/
def marks : List (Char × Char) :=
  [('"', '"'), ('\\', '\\'), ('\n', 'n'), ('\t', 't'), ('\r', 'r'), ('\x00', '0')]

/-- The three ways to write a character between quotes. -/
inductive Escape (c : Char) : List Char → Prop
  | marked {mark : Char} (h : (c, mark) ∈ marks) : Escape c ['\\', mark]
  | numbered : Escape c (['\\', 'u', '\x7b'] ++ hexadecimal c.toNat ++ ['\x7d'])
  | itself (h : ∀ mark, (c, mark) ∉ marks) : Escape c [c]

theorem escape_escaped (c : Char) : Escape c (escaped c) := by
  have hmarked : ∀ d mark, (d, mark) ∈ marks → c = d → Escape c ['\\', mark] := by
    rintro d mark h rfl
    exact .marked h
  unfold escaped
  iterate 6
    split
    next h => exact hmarked _ _ (by decide) h
  split
  · exact .numbered
  · refine .itself ?_
    intro mark hmark
    simp_all [marks]

theorem marks_injective {c d mark : Char} (hc : (c, mark) ∈ marks) (hd : (d, mark) ∈ marks) :
    c = d := by
  have hall : ∀ p ∈ marks, ∀ q ∈ marks, p.2 = q.2 → p.1 = q.1 := by decide
  exact hall _ hc _ hd rfl

theorem ne_of_mem_marks {c mark : Char} (h : (c, mark) ∈ marks) : mark ≠ 'u' ∧ mark ≠ '\n' := by
  have hall : ∀ p ∈ marks, p.2 ≠ 'u' ∧ p.2 ≠ '\n' := by decide
  exact hall _ h

/-- A character between quotes shows where it ends. -/
theorem Escape.unique {c d : Char} {as bs xs ys : List Char} (hc : Escape c as)
    (hd : Escape d bs) (h : as ++ xs = bs ++ ys) : c = d ∧ xs = ys := by
  have hslash : ∀ c, (∀ mark, (c, mark) ∉ marks) → c ≠ '\\' := by
    rintro c hc rfl
    exact hc '\\' (by decide)
  cases hc with
  | marked hc =>
    cases hd with
    | marked hd =>
      simp only [List.cons_append, List.nil_append, List.cons.injEq, true_and] at h
      obtain ⟨rfl, hrest⟩ := h
      exact ⟨marks_injective hc hd, hrest⟩
    | numbered =>
      simp only [List.cons_append, List.nil_append, List.cons.injEq, true_and] at h
      exact absurd h.1 (ne_of_mem_marks hc).1
    | itself hd => exact absurd (List.cons.inj h).1.symm (hslash d hd)
  | numbered =>
    cases hd with
    | marked hd =>
      simp only [List.cons_append, List.nil_append, List.cons.injEq, true_and] at h
      exact absurd h.1.symm (ne_of_mem_marks hd).1
    | numbered =>
      simp only [List.cons_append, List.nil_append, List.append_assoc, List.cons.injEq,
        true_and] at h
      have hbrace : ∀ n, '\x7d' ∉ hexadecimal n := fun n hmem =>
        absurd (mem_hexadecimalDigits hmem) (by decide)
      obtain ⟨hdigits, hrest⟩ := before_unique (hbrace _) (hbrace _) h
      have hcode := congrArg ofHexadecimal hdigits
      rw [ofHexadecimal_hexadecimal, ofHexadecimal_hexadecimal] at hcode
      exact ⟨Char.toNat_inj.mp hcode, hrest⟩
    | itself hd => exact absurd (List.cons.inj h).1.symm (hslash d hd)
  | itself hc =>
    cases hd with
    | marked hd => exact absurd (List.cons.inj h).1 (hslash c hc)
    | numbered => exact absurd (List.cons.inj h).1 (hslash c hc)
    | itself hd => exact List.cons.inj h

/-- No character between quotes looks like the quote behind them. -/
theorem Escape.ne_quote {c : Char} {as : List Char} (h : Escape c as) (xs ys : List Char) :
    as ++ xs ≠ '"' :: ys := by
  intro heq
  cases h with
  | marked h => exact absurd (List.cons.inj heq).1 (by decide)
  | numbered => exact absurd (List.cons.inj heq).1 (by decide)
  | itself h =>
    obtain ⟨rfl, -⟩ := List.cons.inj heq
    exact h '"' (by decide)

theorem Escape.newline {c : Char} {as : List Char} (h : Escape c as) : '\n' ∉ as := by
  intro hmem
  cases h with
  | @marked mark h =>
    have hmark : '\n' = mark := by simpa using hmem
    exact (ne_of_mem_marks h).2 hmark.symm
  | numbered =>
    have hdigit : '\n' ∈ hexadecimal c.toNat := by simpa using hmem
    exact absurd (mem_hexadecimalDigits hdigit) (by decide)
  | itself h =>
    rw [← List.mem_singleton.mp hmem] at h
    exact h 'n' (by decide)

/-! ## Quoted texts -/

theorem escaped_unique {cs ds xs ys : List Char}
    (h : cs.flatMap escaped ++ '"' :: xs = ds.flatMap escaped ++ '"' :: ys) :
    cs = ds ∧ xs = ys := by
  induction cs generalizing ds with
  | nil =>
    cases ds with
    | nil => exact ⟨rfl, (List.cons.inj h).2⟩
    | cons d ds =>
      rw [List.flatMap_cons, List.append_assoc] at h
      exact absurd h.symm ((escape_escaped d).ne_quote _ _)
  | cons c cs ih =>
    rw [List.flatMap_cons, List.append_assoc] at h
    cases ds with
    | nil => exact absurd h ((escape_escaped c).ne_quote _ _)
    | cons d ds =>
      rw [List.flatMap_cons, List.append_assoc] at h
      obtain ⟨rfl, htail⟩ := (escape_escaped c).unique (escape_escaped d) h
      obtain ⟨rfl, hrest⟩ := ih htail
      exact ⟨rfl, hrest⟩

theorem toList_quoted (s : String) :
    (quoted s).toList = '"' :: (s.toList.flatMap escaped ++ ['"']) := by
  simp [quoted]

/-- A quoted text shows where it ends and what it is. -/
theorem quoted_unique {s t : String} {xs ys : List Char}
    (h : (quoted s).toList ++ xs = (quoted t).toList ++ ys) : s = t ∧ xs = ys := by
  simp only [toList_quoted, List.cons_append, List.append_assoc, List.nil_append,
    List.cons.injEq, true_and] at h
  obtain ⟨hchars, hrest⟩ := escaped_unique h
  exact ⟨String.toList_inj.mp hchars, hrest⟩

theorem newline_quoted (s : String) : '\n' ∉ (quoted s).toList := by
  simp only [toList_quoted, List.mem_cons, List.mem_append, List.mem_flatMap, List.not_mem_nil]
  rintro (h | ⟨c, -, h⟩ | h | h)
  · cases h
  · exact (escape_escaped c).newline h
  · cases h
  · exact h

end Bukvar.Text
