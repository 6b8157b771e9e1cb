import Bukvar.Proofs.Token.Segmentation
import Bukvar.Source.Position
import Mathlib

/-!
# From lines and columns back to byte offsets

A position says how many lines of a text come before a place and how many characters of the next
line. Counting the bytes of both gives the offset of the place back, so two places never have the
same position, and a place further behind has a later one.

* `exists_after`: the lines that are counted.
* `points_after`: a position leads back to its offset.
* `before_after_append`: what a longer text does to the position behind it.
* `ofOffset_undone`: both for the positions of a source.
-/

namespace Bukvar

open Text (byteLength)

/-! ## Lines of a text -/

namespace Text

/-- The pieces of a text between its newlines. -/
def lines (cs : List Char) : List (List Char) :=
  cs.splitOn '\n'

/-- Lines with the newline behind each of them. -/
def closed (ls : List (List Char)) : List Char :=
  ls.flatMap (· ++ ['\n'])

theorem byteLength_closed (ls : List (List Char)) :
    byteLength (closed ls) = (ls.map (byteLength · + 1)).sum := by
  induction ls with
  | nil => rfl
  | cons l ls ih =>
    rw [List.map_cons, List.sum_cons, ← ih]
    change byteLength ((l ++ ['\n']) ++ closed ls) = _
    rw [byteLength_append, byteLength_append]
    rfl

theorem lines_closed_append {ls : List (List Char)} (hls : ∀ l ∈ ls, '\n' ∉ l) (cs : List Char) :
    lines (closed ls ++ cs) = ls ++ lines cs := by
  induction ls with
  | nil => rfl
  | cons l ls ih =>
    have htext : closed (l :: ls) ++ cs = l ++ '\n' :: (closed ls ++ cs) := by simp [closed]
    rw [htext, lines, List.splitOn_append_cons_self_of_not_mem (hls l (List.mem_cons_self ..))]
    exact congrArg _ (ih fun x hx => hls x (List.mem_cons_of_mem _ hx))

/-- A text without a newline belongs to the first line of what follows it. -/
theorem exists_lines_append {cs : List Char} (hcs : '\n' ∉ cs) (rest : List Char) :
    ∃ back more, lines (cs ++ rest) = (cs ++ back) :: more := by
  induction cs with
  | nil =>
    obtain ⟨back, more, h⟩ := List.exists_cons_of_ne_nil (List.splitOn_ne_nil '\n' rest)
    exact ⟨back, more, h⟩
  | cons c cs ih =>
    rw [List.mem_cons, not_or] at hcs
    obtain ⟨hc, hcs⟩ := hcs
    obtain ⟨back, more, h⟩ := ih hcs
    refine ⟨back, more, ?_⟩
    rw [List.cons_append, lines, List.splitOn_cons_eq_if_modifyHead,
      if_neg (by simpa using Ne.symm hc)]
    change List.modifyHead (List.cons c) (lines (cs ++ rest)) = _
    rw [h]
    rfl

end Text

namespace Position

/-! ## Positions and offsets -/

/-- A line of the text and a place in it, and the number of bytes before that place. -/
structure Points (lines : List (List Char)) (p : Position) (offset : Nat) : Prop where
  line_pos : 1 ≤ p.line
  line_le : p.line ≤ lines.length
  column_pos : 1 ≤ p.column
  column_le : p.column ≤ (lines.getD (p.line - 1) []).length + 1
  /-- The lines before the position count with their newlines. -/
  offset_eq : offset = ((lines.take (p.line - 1)).map (byteLength · + 1)).sum +
    byteLength ((lines.getD (p.line - 1) []).take (p.column - 1))

/-- A text is a number of full lines and the start of another one. -/
theorem exists_after (cs : List Char) :
    ∃ ls last, (∀ l ∈ ls, '\n' ∉ l) ∧ '\n' ∉ last ∧ cs = Text.closed ls ++ last ∧
      after cs = ⟨ls.length + 1, last.length + 1⟩ := by
  induction cs using List.reverseRecOn with
  | nil => exact ⟨[], [], by simp, by simp, rfl, rfl⟩
  | append_singleton cs c ih =>
    obtain ⟨ls, last, hls, hlast, rfl, hafter⟩ := ih
    by_cases hc : c = '\n'
    · subst hc
      refine ⟨ls ++ [last], [], ?_, by simp, by simp [Text.closed], ?_⟩
      · intro l hl
        rcases List.mem_append.mp hl with hl | hl
        · exact hls l hl
        · exact List.mem_singleton.mp hl ▸ hlast
      · rw [after_newline, hafter, List.length_append]
        rfl
    · refine ⟨ls, last ++ [c], hls, ?_, by simp, ?_⟩
      · simp [hlast, Ne.symm hc]
      · rw [after_other _ hc, hafter, List.length_append]
        rfl

/-- The position behind a first part of a text leads back to the length of that part. -/
theorem points_after (before rest : List Char) :
    (after before).Points (Text.lines (before ++ rest)) (byteLength before) := by
  obtain ⟨ls, last, hls, hlast, rfl, hafter⟩ := exists_after before
  obtain ⟨back, more, hline⟩ := Text.exists_lines_append hlast rest
  have hlines : Text.lines (Text.closed ls ++ last ++ rest) = ls ++ (last ++ back) :: more := by
    rw [List.append_assoc, Text.lines_closed_append hls, hline]
  have hcurrent : (ls ++ (last ++ back) :: more).getD ls.length [] = last ++ back := by simp
  rw [hlines, hafter]
  constructor
  · exact Nat.le_add_left 1 ls.length
  · simp
  · exact Nat.le_add_left 1 last.length
  · rw [Nat.add_sub_cancel, hcurrent, List.length_append]
    exact Nat.succ_le_succ (Nat.le_add_right _ _)
  · rw [Nat.add_sub_cancel, Nat.add_sub_cancel, hcurrent, List.take_left, List.take_left,
      ← Text.byteLength_closed, Text.byteLength_append]

/-! ## The order of positions -/

/-- The position comes first, line by line and on a line column by column. -/
def Before (p q : Position) : Prop :=
  p.line < q.line ∨ p.line = q.line ∧ p.column < q.column

instance (p q : Position) : Decidable (p.Before q) :=
  inferInstanceAs (Decidable (_ ∨ _))

theorem Before.trans {p q r : Position} (hpq : p.Before q) (hqr : q.Before r) : p.Before r := by
  unfold Before at *
  omega

theorem before_step (p : Position) (c : Char) : p.Before (p.step c) := by
  unfold step
  split
  · exact .inl (Nat.lt_succ_self p.line)
  · exact .inr ⟨rfl, Nat.lt_succ_self p.column⟩

theorem before_foldl_step (p : Position) (c : Char) (cs : List Char) :
    p.Before ((c :: cs).foldl step p) := by
  induction cs generalizing p c with
  | nil => exact before_step p c
  | cons d cs ih => exact (before_step p c).trans (ih (p.step c) d)

/-- A longer text ends at a later position. -/
theorem before_after_append (before : List Char) {more : List Char} (h : more ≠ []) :
    (after before).Before (after (before ++ more)) := by
  obtain ⟨c, cs, rfl⟩ := List.exists_cons_of_ne_nil h
  rw [after, after, List.foldl_append]
  exact before_foldl_step _ c cs

/-! ## Positions in a source -/

/-- A byte offset between two characters of a source, or at one of its ends. -/
theorem exists_split {source : String} {offset : Nat}
    (h : String.Pos.Raw.IsValid source ⟨offset⟩) :
    ∃ before rest, source.toList = before ++ rest ∧ offset = byteLength before ∧
      ofOffset source offset = .ok (after before) := by
  obtain ⟨front, back, rfl, hoffset⟩ := String.Pos.Raw.isValid_iff_exists_append.mp h
  have hbytes : offset = byteLength front.toList := by
    rw [Text.byteLength_toList]
    exact congrArg String.Pos.Raw.byteIdx hoffset
  refine ⟨front.toList, back.toList, String.toList_append, hbytes, ?_⟩
  rw [hbytes]
  exact ofOffset_append _ _ _ String.toList_append

/-- The position of a byte offset between characters leads back to the offset, by the lines of the
source. A greater offset has a later position, up to the end, whose position all offsets beyond it
have. -/
theorem ofOffset_undone (source : String) :
    (∀ offset, String.Pos.Raw.IsValid source ⟨offset⟩ →
      ∃ p, ofOffset source offset = .ok p ∧ p.Points (Text.lines source.toList) offset) ∧
    (∀ a b, String.Pos.Raw.IsValid source ⟨a⟩ → String.Pos.Raw.IsValid source ⟨b⟩ → a < b →
      ∃ p q, ofOffset source a = .ok p ∧ ofOffset source b = .ok q ∧ p.Before q) ∧
    ∃ last, ofOffset source source.utf8ByteSize = .ok last ∧
      ∀ offset, source.utf8ByteSize < offset → ofOffset source offset = .ok last := by
  refine ⟨?_, ?_, after source.toList, ?_, ?_⟩
  · intro offset hvalid
    obtain ⟨before, rest, hsource, rfl, hposition⟩ := exists_split hvalid
    exact ⟨after before, hposition, hsource ▸ points_after before rest⟩
  · intro a b ha hb hlt
    obtain ⟨front, rest, hfront, rfl, hp⟩ := exists_split ha
    obtain ⟨front', rest', hfront', rfl, hq⟩ := exists_split hb
    obtain ⟨m, rfl, -⟩ :=
      Text.exists_append_of_byteLength_le (hfront.symm.trans hfront') (Nat.le_of_lt hlt)
    refine ⟨_, _, hp, hq, before_after_append front ?_⟩
    rintro rfl
    simp at hlt
  · rw [ofOffset, Text.takeBytes?_eq_self _ _ (Nat.le_of_eq (Text.byteLength_toList source))]
  · intro offset hlt
    have hle : byteLength source.toList ≤ offset := by
      rw [Text.byteLength_toList]
      omega
    rw [ofOffset, Text.takeBytes?_eq_self _ _ hle]

/-- Offsets on a newline, right behind it and at the end of a text whose letters have two bytes. -/
theorem ofOffset_undone_newline :
    String.Pos.Raw.IsValid "же\n\nю" ⟨4⟩ ∧ String.Pos.Raw.IsValid "же\n\nю" ⟨5⟩ ∧
      (∃ p, ofOffset "же\n\nю" 4 = .ok p ∧ p.Points [['ж', 'е'], [], ['ю']] 4) ∧
      (∃ p q, ofOffset "же\n\nю" 4 = .ok p ∧ ofOffset "же\n\nю" 5 = .ok q ∧ p.Before q) ∧
      ∃ last, ofOffset "же\n\nю" 8 = .ok last ∧ ofOffset "же\n\nю" 100 = .ok last := by
  have hfour : String.Pos.Raw.IsValid "же\n\nю" ⟨4⟩ :=
    String.Pos.Raw.isValid_iff_exists_append.mpr ⟨"же", "\n\nю", by decide, by decide⟩
  have hfive : String.Pos.Raw.IsValid "же\n\nю" ⟨5⟩ :=
    String.Pos.Raw.isValid_iff_exists_append.mpr ⟨"же\n", "\nю", by decide, by decide⟩
  obtain ⟨hpoints, hbefore, last, hlast, hbeyond⟩ := ofOffset_undone "же\n\nю"
  exact ⟨hfour, hfive, hpoints 4 hfour, hbefore 4 5 hfour hfive (by decide), last, hlast,
    hbeyond 100 (by decide)⟩

end Position

end Bukvar
