import Bukvar.Proofs.Token.Lines
import Bukvar.Proofs.Token.Slices

/-!
# Lines are split one by one

Where a text starts shows in the places of its tokens and in nothing else. Since no unit goes beyond
its line, the tokens of two texts with a newline between them are those of the first text and those
of the second one, moved behind the newline.

* `lexemes_moved`, `toToken_moved`: a text that starts further behind.
* `tokenize_newline`: both sides of a newline, also where one of them has no tokens.
* `tokens_on_lines`: the tokens of two texts that are small enough to have some.
-/

namespace Bukvar

open Text (byteLength)

/-! ## Texts further behind -/

theorem Span.ofBounds_moved (k lo hi : Nat) :
    ofBounds (k + lo) (k + hi) = (ofBounds lo hi).map (Span.moved k) := by
  have hlength : k + hi - (k + lo) = hi - lo := by omega
  unfold ofBounds
  by_cases horder : hi < lo
  · rw [if_pos horder, if_pos (by omega)]
    rfl
  · rw [if_neg horder, if_neg (by omega)]
    by_cases hnear : hi - lo < Span.limit
    · rw [dif_pos hnear, dif_pos (by omega)]
      simp only [hlength]
      rfl
    · rw [dif_neg hnear, dif_neg (by omega)]
      rfl

namespace Token

/-- The unit further behind. -/
def Lexeme.moved (k : Nat) (l : Lexeme) : Lexeme :=
  { l with offset := k + l.offset }

theorem lexemes_moved (k offset : Nat) (cs : List Char) :
    lexemes (k + offset) cs = (lexemes offset cs).map (Lexeme.moved k) := by
  fun_induction lexemes offset cs with
  | case1 offset => rw [lexemes_nil, List.map_nil]
  | case2 offset c cs hc ih => rw [lexemes_blank _ cs hc, Nat.add_assoc, ih]
  | case3 offset c cs hc ih =>
    rw [lexemes_unit _ cs (by simpa using hc), Nat.add_assoc, ih, List.map_cons]
    rfl

theorem toToken_moved (k : Nat) (l : Lexeme) :
    (l.moved k).toToken = l.toToken.map (Token.moved k) := by
  change (do
    let span ← Span.ofBounds (k + l.offset) (k + l.offset + byteLength l.text)
    return (⟨classify (.ofList l.text), .ofList l.text, span⟩ : Token)) = _
  rw [Nat.add_assoc, Span.ofBounds_moved, Lexeme.toToken]
  cases Span.ofBounds l.offset (l.offset + byteLength l.text) <;> rfl

theorem mapM_toToken_moved (k : Nat) (ls : List Lexeme) :
    (ls.map (Lexeme.moved k)).mapM Lexeme.toToken =
      (ls.mapM Lexeme.toToken).map (List.map (Token.moved k)) := by
  induction ls with
  | nil => rfl
  | cons l ls ih =>
    rw [List.map_cons, List.mapM_cons, List.mapM_cons, toToken_moved, ih]
    cases l.toToken with
    | error e => rfl
    | ok t => cases ls.mapM Lexeme.toToken <;> rfl

/-! ## Both sides of a newline -/

/-- The tokens of two texts with a newline between them. A text without tokens takes those of the
other away, and of two such texts the first one says why. -/
theorem tokenize_newline (s t : String) :
    tokenize (s ++ "\n" ++ t) = (do
      let ts ← tokenize s
      let us ← tokenize t
      return ts.dropLast ++ us.map (Token.moved (s.utf8ByteSize + 1))) := by
  have htext : (s ++ "\n" ++ t).toList = s.toList ++ '\n' :: t.toList := by simp
  have hbehind : lexemes (0 + byteLength s.toList + 1) t.toList =
      (lexemes 0 t.toList).map (Lexeme.moved (s.utf8ByteSize + 1)) := by
    rw [← lexemes_moved, Text.byteLength_toList, Nat.zero_add, Nat.add_zero]
  have hlength : byteLength (s.toList ++ '\n' :: t.toList) =
      s.utf8ByteSize + 1 + byteLength t.toList := by
    rw [Text.byteLength_append, Text.byteLength_cons, Text.byteLength_toList, Nat.add_assoc]
    rfl
  unfold tokenize
  rw [htext, lexemes_newline, List.mapM_append, hbehind, mapM_toToken_moved, hlength]
  cases (lexemes 0 s.toList).mapM Lexeme.toToken with
  | error e => rfl
  | ok ts =>
    cases (lexemes 0 t.toList).mapM Lexeme.toToken with
    | error e => rfl
    | ok us =>
      change Except.ok _ = Except.ok _
      rw [List.dropLast_concat, List.map_append, List.append_assoc]
      rfl

theorem Lexed.tokenize {s : String} {ts : List Token} (h : Lexed 0 s.toList ts) :
    tokenize s = .ok (ts ++ [endOfInput s.utf8ByteSize]) := by
  unfold Lexed at h
  rw [Token.tokenize, h, Text.byteLength_toList]
  rfl

/-- The tokens of a text, a newline and another text are those of the first text without the mark
of its end, and behind them those of the second text with its mark, all moved behind the newline. -/
theorem tokens_on_lines {s t : String} (hsize : s.utf8ByteSize + t.utf8ByteSize < Span.limit) :
    ∃ ts us : List Token, Buffer.ofSource s = .ok (.ofTokens ts s.utf8ByteSize) ∧
      Buffer.ofSource t = .ok (.ofTokens us t.utf8ByteSize) ∧
      Buffer.ofSource (s ++ "\n" ++ t) =
        .ok ⟨(ts ++ (us ++ [endOfInput t.utf8ByteSize]).map
          (Token.moved (s.utf8ByteSize + 1))).toArray, 0⟩ ∧
      ∀ token ∈ ts ++ us, token.kind ≠ .endOfInput := by
  obtain ⟨ts, hts, -⟩ := @exists_lexed 0 s.toList (by rw [Text.byteLength_toList]; omega)
  obtain ⟨us, hus, -⟩ := @exists_lexed 0 t.toList (by rw [Text.byteLength_toList]; omega)
  obtain ⟨htokens, hs⟩ := ofSource_of_mapM hts
  obtain ⟨hutokens, ht⟩ := ofSource_of_mapM hus
  refine ⟨ts, us, hs, ht, ?_, ?_⟩
  · rw [ofSource_eq, tokenize_newline, hts.tokenize, hus.tokenize]
    change Except.ok _ = Except.ok _
    rw [List.dropLast_concat]
  · intro token hmem
    rcases List.mem_append.mp hmem with hmem | hmem
    · exact htokens.kind_ne_endOfInput token hmem
    · exact hutokens.kind_ne_endOfInput token hmem

/-- The first text ends in a quote that is left open, a letter of two bytes and a carriage return.
The second one starts with a quote that would close it on the same line. -/
theorem tokens_on_lines_quotes :
    "\"ж\r".utf8ByteSize + "\" ;".utf8ByteSize < Span.limit ∧
      ∃ ts us : List Token, Buffer.ofSource "\"ж\r" = .ok (.ofTokens ts 4) ∧
        Buffer.ofSource "\" ;" = .ok (.ofTokens us 3) ∧
        Buffer.ofSource "\"ж\r\n\" ;" =
          .ok ⟨(ts ++ (us ++ [endOfInput 3]).map (Token.moved 5)).toArray, 0⟩ ∧
        ts.map (fun t => (t.span.lo, t.span.hi, t.text)) = [(0, 3, "\"ж")] ∧
        us.map (fun t => (t.span.lo, t.span.hi, t.text)) = [(0, 1, "\""), (2, 3, ";")] := by
  have hsize : "\"ж\r".utf8ByteSize + "\" ;".utf8ByteSize < Span.limit := by decide
  obtain ⟨ts, us, hts, hus, hboth, -⟩ := tokens_on_lines hsize
  have hfirst : (Buffer.ofSource "\"ж\r").toOption.map
      (·.tokens.toList.map fun t => (t.span.lo, t.span.hi, t.text)) =
        some ([(0, 3, "\"ж")] ++ [(4, 4, "")]) := by
    decide +kernel
  have hsecond : (Buffer.ofSource "\" ;").toOption.map
      (·.tokens.toList.map fun t => (t.span.lo, t.span.hi, t.text)) =
        some ([(0, 1, "\""), (2, 3, ";")] ++ [(3, 3, "")]) := by
    decide +kernel
  rw [hts, Except.toOption, Option.map_some, Buffer.ofTokens, List.map_append,
    Option.some.injEq] at hfirst
  rw [hus, Except.toOption, Option.map_some, Buffer.ofTokens, List.map_append,
    Option.some.injEq] at hsecond
  exact ⟨hsize, ts, us, hts, hus, hboth, (List.append_inj' hfirst rfl).1,
    (List.append_inj' hsecond rfl).1⟩

end Token

end Bukvar
