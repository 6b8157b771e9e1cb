import Bukvar.Proofs.Diagnostic.Blame
import Bukvar.Proofs.Listing.Normal
import Bukvar.Proofs.Parsing.ProgramLikeness

/-!
# Where tokens stand makes no difference

A compiler looks at the kinds and texts of tokens and never at their places. Sources that differ
only in the blanks between their tokens therefore have the same listing, or are rejected for the
same problem (`compile_placement`). Every source has such a twin with one token on each line.

* `faces_onLines`: a source and its twin have the same tokens up to places.
* `sameButPlace_compile`: sources with the same tokens up to places are answered alike.
-/

namespace Bukvar

open Diagnostic (Problem Rejection)
open Token (Buffer Kind)

/-! ## Tokens up to places -/

namespace Token

/-- The kinds and texts of the tokens of a buffer. -/
def Buffer.faces (b : Buffer) : Array (Kind × String) :=
  b.tokens.map face

/-- The texts of tokens, each on a line of its own. -/
def onLines (ts : List Token) : String :=
  "\n".intercalate (ts.map Token.text)

variable {s : String} {ts : List Token}

/-- The kinds and texts of tokens follow from the units of their source. -/
theorem TokensOf.map_face (h : TokensOf s ts) :
    ts.map face = ((units s.toList).map String.ofList).map fun text => (classify text, text) := by
  rw [← h.texts, List.map_map]
  apply List.map_congr_left
  intro token htoken
  rw [face, h.kinds token htoken]
  rfl

theorem faces_ofTokens (ts : List Token) (length : Nat) :
    (Buffer.ofTokens ts length).faces = (ts.map face ++ [(Kind.endOfInput, "")]).toArray := by
  simp [Buffer.faces, Buffer.ofTokens, face, endOfInput]

theorem TokensOf.map_toList (h : TokensOf s ts) : ts.map (·.text.toList) = units s.toList := by
  have htexts := congrArg (List.map String.toList) h.texts
  simpa [List.map_map, Function.comp_def] using htexts

/-- Whether the mark of the end gets a line or not, the lines have the units of the source. -/
theorem units_onLines (h : TokensOf s ts) (length : Nat) {lines : List Token}
    (hlines : lines = ts ∨ lines = ts ++ [endOfInput length]) :
    units (onLines lines).toList = units s.toList := by
  have hne : ∀ u ∈ ts.map (·.text.toList), u ≠ [] := by
    intro u hu
    obtain ⟨token, htoken, rfl⟩ := List.mem_map.mp hu
    exact ((h.isUnit htoken).unitBefore (.inl rfl)).ne_nil
  have hfilter : (ts.map (·.text.toList)).filter (· ≠ []) = ts.map (·.text.toList) :=
    List.filter_eq_self.mpr fun u hu => by simpa using hne u hu
  have hunits : ∀ u ∈ lines.map (·.text.toList), u = [] ∨ IsUnit u := by
    intro u hu
    obtain ⟨token, htoken, rfl⟩ := List.mem_map.mp hu
    rcases hlines with rfl | rfl
    · exact .inr (h.isUnit htoken)
    · rcases List.mem_append.mp htoken with htoken | htoken
      · exact .inr (h.isUnit htoken)
      · rw [List.mem_singleton.mp htoken]
        exact .inl rfl
  have htoList : (onLines lines).toList = ['\n'].intercalate (lines.map (·.text.toList)) := by
    rw [onLines, String.toList_intercalate, List.map_map]
    rfl
  rw [htoList, units_lines hunits, ← h.map_toList]
  rcases hlines with rfl | rfl
  · exact hfilter
  · rw [List.map_append, List.filter_append, hfilter]
    simp [endOfInput]

/-- The lines are split into the tokens that were written on them. -/
theorem faces_onLines (h : TokensOf s ts) (hsize : s.utf8ByteSize < Span.limit) (length : Nat)
    {lines : List Token} (hlines : lines = ts ∨ lines = ts ++ [endOfInput length]) :
    ∃ buffer, Buffer.ofSource (onLines lines) = .ok buffer ∧
      buffer.faces = (Buffer.ofTokens ts length).faces := by
  have hunits := units_onLines h length hlines
  obtain ⟨us, hus, hbuffer, -⟩ := @exists_buffer_of_units (onLines lines) (by
    intro u hu
    rw [hunits] at hu
    have := byteLength_le_of_mem_units hu
    rw [Text.byteLength_toList] at this
    omega)
  refine ⟨_, hbuffer, ?_⟩
  rw [faces_ofTokens, faces_ofTokens, hus.map_face, h.map_face, hunits]

end Token

/-! ## Answers up to places -/

/-- Rejections for the same problem, wherever it is. -/
inductive Diagnostic.Rejection.SameButPlace : Rejection → Rejection → Prop
  | invalid {p q : Located Problem} (h : p.value = q.value) : SameButPlace (.invalid p) (.invalid q)
  | internal {p q : Located Token.Conversion} (h : p.value = q.value) :
    SameButPlace (.internal p) (.internal q)

theorem Diagnostic.Rejection.sameButPlace_ofProblem {p q : Located Problem}
    (h : p.value = q.value) : (ofProblem p).SameButPlace (ofProblem q) := by
  obtain ⟨s, value⟩ := p
  obtain ⟨t, value'⟩ := q
  obtain rfl : value = value' := h
  cases value with
  | conversion failed => exact .internal rfl
  | _ => exact .invalid rfl

/-- The same result, or rejections for the same problem. -/
inductive Outcome.SameButPlace {α : Type} : Outcome α → Outcome α → Prop
  | done (value : α) : SameButPlace (.done value) (.done value)
  | rejected {r r' : Rejection} (h : r.SameButPlace r') : SameButPlace (.rejected r) (.rejected r')

/-- Sources with the same tokens up to places are answered alike. -/
theorem sameButPlace_compile (c : Compiler) {s t : String} (hs : s.utf8ByteSize < Span.limit)
    (ht : t.utf8ByteSize < Span.limit) {a b : Buffer} (ha : Buffer.ofSource s = .ok a)
    (hb : Buffer.ofSource t = .ok b) (hfaces : b.faces = a.faces) :
    (c.compile s).outcome.SameButPlace (c.compile t).outcome := by
  obtain ⟨_, m, -, ha', hm, hmtokens, hmcursor, hmspans⟩ := exists_spanned hs
  obtain ⟨_, n, -, hb', hn, hntokens, hncursor, hnspans⟩ := exists_spanned ht
  cases ha.symm.trans ha'
  cases hb.symm.trans hb'
  have halike : Parsing.Alike ⟨m, []⟩ ⟨n, []⟩ := by
    refine ⟨⟨?_, hmcursor.trans hncursor.symm⟩, rfl⟩
    rw [hmtokens, hntokens]
    exact hfaces.symm
  have hmatching := Parsing.agree_program _ _ halike
  have hkeeps := Parsing.safe_program (m := ⟨m, []⟩) hmspans
  have hkeeps' := Parsing.safe_program (m := ⟨n, []⟩) hnspans
  change (Outcome.map _ (c.parse s).outcome).SameButPlace (Outcome.map _ (c.parse t).outcome)
  rw [(c.parse_of_ofSource ha).1, (c.parse_of_ofSource hb).1, Parsing.parseProgram,
    Parsing.parseProgram]
  -- The runs match, and neither of them ends with a fault, which would match anything.
  generalize hx : Parsing.program ⟨m, []⟩ = x at hmatching hkeeps
  generalize hy : Parsing.program ⟨n, []⟩ = y at hmatching hkeeps'
  cases hmatching with
  | @ok p q _ _ hbare _ =>
    rw [Parsing.parse_of_ok hm hx, Parsing.parse_of_ok hn hy]
    have hlisting : Listing.generate c.options p = Listing.generate c.options q := by
      rw [← Listing.generate_bareBlock, hbare, Listing.generate_bareBlock]
    change Outcome.SameButPlace (.done (Listing.generate c.options p)) (.done _)
    rw [hlisting]
    exact .done _
  | problem h =>
    rw [Parsing.parse_of_error hm hx, Parsing.parse_of_error hn hy]
    exact .rejected (Rejection.sameButPlace_ofProblem h)
  | faultLeft => exact hkeeps.elim
  | faultRight => exact hkeeps'.elim

/-- Sources that differ only in the places of their tokens are answered alike. One of them has each
token on a line of its own, with or without a last line for the mark of the end. -/
theorem compile_placement (c : Compiler) (s : String) (hs : s.utf8ByteSize < Span.limit) :
    ∃ buffer, Buffer.ofSource s = .ok buffer ∧
      (∀ t other, t.utf8ByteSize < Span.limit → Buffer.ofSource t = .ok other →
        other.faces = buffer.faces →
          (c.compile s).outcome.SameButPlace (c.compile t).outcome) ∧
      ∀ t, t = Token.onLines buffer.tokens.toList ∨
          t = Token.onLines buffer.tokens.toList.dropLast →
        (∃ other, Buffer.ofSource t = .ok other ∧ other.faces = buffer.faces) ∧
          (t.utf8ByteSize < Span.limit →
            (c.compile s).outcome.SameButPlace (c.compile t).outcome) := by
  obtain ⟨ts, htokens, hbuffer, -⟩ := Token.exists_buffer hs
  refine ⟨_, hbuffer, ?_, ?_⟩
  · intro t other ht hother hfaces
    exact sameButPlace_compile c hs ht hbuffer hother hfaces
  · intro t hlines
    have hlast : (Buffer.ofTokens ts s.utf8ByteSize).tokens.toList.dropLast = ts := by
      simp [Buffer.ofTokens]
    rw [hlast] at hlines
    obtain ⟨other, hother, hfaces⟩ : ∃ other, Buffer.ofSource t = .ok other ∧
        other.faces = (Buffer.ofTokens ts s.utf8ByteSize).faces := by
      rcases hlines with rfl | rfl
      · exact Token.faces_onLines htokens hs _ (.inr rfl)
      · exact Token.faces_onLines htokens hs _ (.inl rfl)
    refine ⟨⟨other, hother, hfaces⟩, ?_⟩
    intro ht
    exact sameButPlace_compile c hs ht hbuffer hother hfaces

/-- A source with little space between its tokens, and the same tokens on lines. -/
theorem compile_placement_glued :
    "начало строка с = \"а;б\";написать(с);конец".utf8ByteSize < Span.limit ∧
      ((Compiler.fresh {}).compile
          "начало строка с = \"а;б\";написать(с);конец").outcome.SameButPlace
        ((Compiler.fresh {}).compile
          "начало\nстрока\nс\n=\n\"а;б\"\n;\nнаписать\n(\nс\n)\n;\nконец\n").outcome := by
  have hs : "начало строка с = \"а;б\";написать(с);конец".utf8ByteSize < Span.limit := by decide
  obtain ⟨buffer, hbuffer, -, hlines⟩ := compile_placement (Compiler.fresh {}) _ hs
  have honLines : (Buffer.ofSource "начало строка с = \"а;б\";написать(с);конец").toOption.map
      (Token.onLines ·.tokens.toList) =
        some "начало\nстрока\nс\n=\n\"а;б\"\n;\nнаписать\n(\nс\n)\n;\nконец\n" := by
    decide +kernel
  rw [hbuffer, Except.toOption, Option.map_some, Option.some.injEq] at honLines
  exact ⟨hs, (hlines _ (.inl honLines.symm)).2 (by decide)⟩

end Bukvar
