import Bukvar.Proofs.Listing.Decoding
import Bukvar.Proofs.Listing.Pages
import Bukvar.Proofs.Parsing.Legibility

/-!
# A listing loses nothing but what its normal form leaves out

Programs whose names do not start with quotes have the same listing exactly when they have the
same normal form.

* `normal_of_generate`: legible programs with the same listing.
* `generate_eq_iff`: programs that were read from sources.
-/

namespace Bukvar

open Token (Buffer classify)

/-- No name of the source starts with a quote. -/
def NamesUnquoted (source : String) : Prop :=
  ∀ buffer, Buffer.ofSource source = .ok buffer →
    ∀ t ∈ buffer.tokens.toList, t.kind = .name → t.text.toList.head? ≠ some '"'

instance (source : String) : Decidable (NamesUnquoted source) :=
  match h : Buffer.ofSource source with
  | .error e => .isTrue fun buffer hbuffer => by
    rw [h] at hbuffer
    cases hbuffer
  | .ok buffer =>
    decidable_of_iff
      (∀ t ∈ buffer.tokens.toList, t.kind = .name → t.text.toList.head? ≠ some '"') <| by
    constructor
    · intro hall buffer' hbuffer'
      rw [h] at hbuffer'
      cases hbuffer'
      exact hall
    · intro hall
      exact hall buffer h

namespace Listing

open Layout (Line Closes closes_cons)

/-! ## Legible programs -/

theorem legibleBlock_append {named : String → Prop} {as bs : List Stmt}
    (has : LegibleBlock named as) (hbs : LegibleBlock named bs) :
    LegibleBlock named (as ++ bs) := by
  induction as with
  | nil => exact hbs
  | cons a as ih => exact ⟨has.1, ih has.2⟩

theorem legible_missingReturn (p : Program) : LegibleBlock Plain (missingReturn p) := by
  unfold missingReturn
  split
  · refine ⟨?_, trivial⟩
    rintro _ ⟨⟩
    exact legible_textLeaf_zero
  · trivial

theorem normalBlock_missingReturn (intMain : Bool) (p : Program) :
    normalBlock intMain (missingReturn p) = missingReturn p := by
  unfold missingReturn
  split <;> rfl

theorem normal_eq (p : Program) :
    normal p = normalBlock (returnsValue p) (p ++ missingReturn p) := by
  rw [normal_eq_append, normalBlock_eq_map, normalBlock_eq_map, List.map_append,
    ← normalBlock_eq_map _ (missingReturn p), normalBlock_missingReturn]

theorem mainLines_eq (p : Program) :
    mainLines p = blockLines (returnsValue p) 2 0 (p ++ missingReturn p) := by
  rw [blockLines_append, blockLines_missingReturn, mainLines]

theorem mainType_injective {p p' : Program} (h : mainType p = mainType p') :
    returnsValue p = returnsValue p' := by
  unfold mainType at h
  cases hp : returnsValue p <;> cases hp' : returnsValue p' <;> simp_all

/-- Programs with the same listing have the same normal form. -/
theorem normal_of_generate {p p' : Program} (hp : LegibleBlock Plain p)
    (hp' : LegibleBlock Plain p') (h : generate {} p = generate {} p') : normal p = normal p' := by
  have hindent : "    ".toList = List.replicate (3 + 1) ' ' := by decide
  rw [generate_eq, generate_eq] at h
  have hlines := Layout.render_injective hindent (clean_lines hp) (clean_lines hp') h
  simp only [lines, braced, List.cons_append, List.nil_append, List.cons.injEq, Line.mk.injEq,
    true_and] at hlines
  obtain ⟨htype, hmain⟩ := hlines
  have hvalue : returnsValue p = returnsValue p' := mainType_injective (by simpa using htype)
  have hmain' : mainLines p ++ [⟨1, "\x7d"⟩] = mainLines p' ++ [⟨1, "\x7d"⟩] := by
    simpa using hmain
  rw [mainLines_eq, mainLines_eq, ← hvalue] at hmain'
  have hend : Closes 2 [⟨1, "\x7d"⟩] := closes_cons (by decide) []
  have hclosed := legibleBlock_append hp' (legible_missingReturn p')
  have hblock := blockLines_unique (legibleBlock_append hp (legible_missingReturn p)) hclosed hend
    hend hmain'
  rw [normal_eq, normal_eq, ← hvalue]
  exact hblock.1

/-! ## Programs of sources -/

theorem classify_symbol (op : Operator) : classify op.symbol = .operator op := by
  cases op <;> decide

/-- A program whose source has no names that start with quotes. -/
theorem legible_plain {c : Compiler} {source : String} {p : Program}
    (hparse : (c.parse source).outcome = .done p) (hquote : NamesUnquoted source) :
    LegibleBlock Plain p := by
  obtain ⟨ts, htokens, hbuffer, hlegible⟩ := c.legible_of_parse hparse
  apply hlegible Plain
  intro t ht hkind
  have hname : classify t.text = .name := (htokens.kinds t ht).symm.trans hkind
  have hmem : t ∈ (Buffer.ofTokens ts source.utf8ByteSize).tokens.toList := by
    simp [Buffer.ofTokens, ht]
  refine ⟨Token.isAtom_of_name (htokens.isUnit ht) hname (hquote _ hbuffer t hmem hkind), ?_⟩
  intro op hop
  rw [hop, classify_symbol] at hname
  cases hname

/-- Two programs that were read from sources have the same listing exactly when they have the same
normal form. -/
theorem generate_eq_iff {c₁ c₂ : Compiler} {source₁ source₂ : String} {p₁ p₂ : Program}
    (hparse₁ : (c₁.parse source₁).outcome = .done p₁)
    (hparse₂ : (c₂.parse source₂).outcome = .done p₂)
    (hquote₁ : NamesUnquoted source₁) (hquote₂ : NamesUnquoted source₂) :
    generate {} p₁ = generate {} p₂ ↔ normal p₁ = normal p₂ := by
  constructor
  · intro h
    exact normal_of_generate (legible_plain hparse₁ hquote₁) (legible_plain hparse₂ hquote₂) h
  · intro h
    rw [← generate_normal, h, generate_normal]

/-- The listing of a program that returns one or, where a condition fails, zero. -/
def returnsListing : List Line :=
  [⟨0, "using System;"⟩, ⟨0, ""⟩, ⟨0, "namespace GeneratedProgram;"⟩, ⟨0, ""⟩,
    ⟨0, "public class Program"⟩, ⟨0, "\x7b"⟩, ⟨1, "public static int Main()"⟩, ⟨1, "\x7b"⟩,
    ⟨2, "if (x)"⟩, ⟨2, "\x7b"⟩, ⟨3, "return 1;"⟩, ⟨2, "\x7d"⟩, ⟨2, "return 0;"⟩, ⟨1, "\x7d"⟩,
    ⟨0, "\x7d"⟩]

/-- An empty last arm, parentheses and a bare return in one source, and none of them in the
other. -/
theorem generate_eq_iff_returns :
    ∃ p₁ p₂,
      ((Compiler.fresh {}).parse
        "начало если (x) то вернуть 1; иначе кесли вернуть; конец").outcome = .done p₁ ∧
      ((Compiler.fresh {}).parse
        "начало если x то вернуть 1; кесли вернуть 0; конец").outcome = .done p₂ ∧
      NamesUnquoted "начало если (x) то вернуть 1; иначе кесли вернуть; конец" ∧
      NamesUnquoted "начало если x то вернуть 1; кесли вернуть 0; конец" ∧
      generate {} p₁ = generate {} p₂ ∧ normal p₁ = normal p₂ := by
  have hlines₁ : ((Compiler.fresh {}).parse
      "начало если (x) то вернуть 1; иначе кесли вернуть; конец").outcome.map (lines {}) =
        .done returnsListing := by
    decide +kernel
  have hlines₂ : ((Compiler.fresh {}).parse
      "начало если x то вернуть 1; кесли вернуть 0; конец").outcome.map (lines {}) =
        .done returnsListing := by
    decide +kernel
  obtain ⟨p₁, hparse₁, hp₁⟩ := Outcome.exists_of_map hlines₁
  obtain ⟨p₂, hparse₂, hp₂⟩ := Outcome.exists_of_map hlines₂
  have hquote₁ : NamesUnquoted "начало если (x) то вернуть 1; иначе кесли вернуть; конец" := by
    decide +kernel
  have hquote₂ : NamesUnquoted "начало если x то вернуть 1; кесли вернуть 0; конец" := by
    decide +kernel
  have hgenerate : generate {} p₁ = generate {} p₂ := by
    rw [generate_eq, generate_eq, hp₁, hp₂]
  exact ⟨p₁, p₂, hparse₁, hparse₂, hquote₁, hquote₂, hgenerate,
    (generate_eq_iff hparse₁ hparse₂ hquote₁ hquote₂).mp hgenerate⟩

end Listing

end Bukvar
