import Bukvar.Proofs.Outline.Decoding
import Bukvar.Proofs.Parsing.Legibility

/-!
# An outline loses nothing but places that no line has

Programs that were read from sources have the same outline exactly when they differ at most in
the places of declared names and of the names in variables.

* `shown_of_ofProgram`: programs whose names hold no blanks.
* `ofProgram_eq_ok_iff_shown`: programs that were read from sources.
-/

namespace Bukvar.Outline

open Layout (Line)
open Token (IsUnit classify)

theorem render_blockLines_injective {p q : Program} (hp : LegibleBlock Unspaced p)
    (hq : LegibleBlock Unspaced q)
    (h : Layout.render indent (blockLines 0 p) = Layout.render indent (blockLines 0 q)) :
    blockLines 0 p = blockLines 0 q := by
  have hindent : indent.toList = List.replicate (1 + 1) ' ' := by decide
  exact Layout.render_injective hindent
    (fun l hl => Layout.clean_of_opensLine (openLines_blockLines hp 0 l hl))
    (fun l hl => Layout.clean_of_opensLine (openLines_blockLines hq 0 l hl)) h

/-- Programs with the same outline differ at most in places that no line has. -/
theorem shown_of_ofProgram {p q : Program} (hp : LegibleBlock Unspaced p)
    (hq : LegibleBlock Unspaced q) {text : String} (hptext : ofProgram 0 p = .ok text)
    (hqtext : ofProgram 0 q = .ok text) : shownBlock p = shownBlock q := by
  obtain ⟨-, htext⟩ := write_eq_ok_iff.mp hptext
  obtain ⟨-, htext'⟩ := write_eq_ok_iff.mp hqtext
  have hlines := render_blockLines_injective hp hq (htext.symm.trans htext')
  have hend : Layout.Closes 0 [] := nofun
  exact (blockLines_unique hp hq hend hend (congrArg (· ++ []) hlines)).1

theorem ofProgram_shown (p : Program) : ofProgram 0 (shownBlock p) = ofProgram 0 p := by
  rw [ofProgram, ofProgram, blockLines_shown]

/-! ## Programs of sources -/

theorem unspaced_of_name {n : String} (hunit : IsUnit n.toList) (hname : classify n = .name) :
    Unspaced n := by
  unfold Unspaced
  generalize htext : n.toList = text at hunit
  cases hunit with
  | standalone h => exact absurd htext (Token.ne_standalone_of_name hname h)
  | @quoted body h =>
    have hshape : Token.Kind.shape .stringLiteral n.toList = true := by
      rw [htext]
      exact Token.isString_quoted body
    rw [Token.classify_of_shape hshape] at hname
    cases hname
  | word hb hs h =>
    intro c hc
    rcases List.mem_cons.mp hc with rfl | hc
    · exact hb
    · exact (Token.endsWord_eq_false_iff.mp (h c hc)).1.1

theorem legible_unspaced {c : Compiler} {source : String} {p : Program}
    (hparse : (c.parse source).outcome = .done p) : LegibleBlock Unspaced p := by
  obtain ⟨ts, htokens, -, hlegible⟩ := c.legible_of_parse hparse
  apply hlegible Unspaced
  intro t ht hkind
  exact unspaced_of_name (htokens.isUnit ht) ((htokens.kinds t ht).symm.trans hkind)

/-- Two programs that were read from sources have the same outline exactly when they differ at
most in the places of declared names and of the names in variables. -/
theorem ofProgram_eq_ok_iff_shown {c₁ c₂ : Compiler} {source₁ source₂ : String} {p₁ p₂ : Program}
    {text : String} (hparse₁ : (c₁.parse source₁).outcome = .done p₁)
    (hparse₂ : (c₂.parse source₂).outcome = .done p₂) (htext : ofProgram 0 p₁ = .ok text) :
    ofProgram 0 p₂ = .ok text ↔ shownBlock p₁ = shownBlock p₂ := by
  constructor
  · intro htext'
    exact shown_of_ofProgram (legible_unspaced hparse₁) (legible_unspaced hparse₂) htext htext'
  · intro h
    rw [← ofProgram_shown, ← h, ofProgram_shown, htext]

/-- The outline of a program with a condition in parentheses and an empty last arm. -/
def enclosedLines : List Line :=
  [⟨0, "if"⟩, ⟨1, "ident x (22..26)"⟩, ⟨1, "then"⟩, ⟨2, "return"⟩, ⟨1, "else (empty)"⟩,
    ⟨0, "write"⟩, ⟨1, "string \"a\" (87..90)"⟩]

/-- Where the names in variables start. -/
def nameOffsets (p : Program) : List Nat :=
  (blockExprs p).filterMap fun
    | .ident id _ => some id.span.lo
    | _ => none

/-- A blank stands before the name in the parentheses in one source, and behind it in the other. -/
theorem ofProgram_eq_ok_iff_shown_enclosed :
    ∃ p₁ p₂ text,
      ((Compiler.fresh {}).parse
        "начало если ( x) то вернуть; иначе кесли написать \"a\"; конец").outcome = .done p₁ ∧
      ((Compiler.fresh {}).parse
        "начало если (x ) то вернуть; иначе кесли написать \"a\"; конец").outcome = .done p₂ ∧
      ofProgram 0 p₁ = .ok text ∧ ofProgram 0 p₂ = .ok text ∧ p₁ ≠ p₂ ∧
      shownBlock p₁ = shownBlock p₂ := by
  have hread₁ : ((Compiler.fresh {}).parse
      "начало если ( x) то вернуть; иначе кесли написать \"a\"; конец").outcome.map
        (fun p => (blockLines 0 p, nameOffsets p)) = .done (enclosedLines, [24]) := by
    decide +kernel
  have hread₂ : ((Compiler.fresh {}).parse
      "начало если (x ) то вернуть; иначе кесли написать \"a\"; конец").outcome.map
        (fun p => (blockLines 0 p, nameOffsets p)) = .done (enclosedLines, [23]) := by
    decide +kernel
  obtain ⟨p₁, hparse₁, hp₁⟩ := Outcome.exists_of_map hread₁
  obtain ⟨p₂, hparse₂, hp₂⟩ := Outcome.exists_of_map hread₂
  obtain ⟨hlines₁, hoffsets₁⟩ := Prod.mk.inj hp₁
  obtain ⟨hlines₂, hoffsets₂⟩ := Prod.mk.inj hp₂
  have hwrite : write enclosedLines = .ok (Layout.render indent enclosedLines) :=
    write_eq_ok_iff.mpr ⟨by decide, rfl⟩
  have htext₁ : ofProgram 0 p₁ = .ok _ := (congrArg write hlines₁).trans hwrite
  have htext₂ : ofProgram 0 p₂ = .ok _ := (congrArg write hlines₂).trans hwrite
  refine ⟨p₁, p₂, _, hparse₁, hparse₂, htext₁, htext₂, ?_,
    (ofProgram_eq_ok_iff_shown hparse₁ hparse₂ htext₁).mp htext₂⟩
  rintro rfl
  exact absurd (hoffsets₁.symm.trans hoffsets₂) (by decide)

end Bukvar.Outline
