import Bukvar.Layout
import Bukvar.Proofs.Text.Framing
import Bukvar.Text.Blank

/-!
# Lines from text

Indented text shows its lines: no line holds a newline, and what comes behind the indentation of
a line does not start with a blank. One step of depth is any number of blanks but zero.

* `render_injective`: lines can be read off their text.
* `clean_of_opensLine`: lines that start with something other than a blank are such lines.
* `Closes`: where a part of a tree ends whose lines are all deeper than what follows.
-/

namespace Bukvar.Layout

/-- The line can be told from its indentation and from the lines around it. -/
structure Line.Clean (l : Line) : Prop where
  newline : '\n' ∉ l.content.toList
  blank : l.content.toList.head? ≠ some ' '

/-- A text does not start with a blank, so the blanks in front of it can be counted. -/
theorem indent_unique {m n : Nat} {cs ds : List Char} (hcs : cs.head? ≠ some ' ')
    (hds : ds.head? ≠ some ' ')
    (h : List.replicate m ' ' ++ cs = List.replicate n ' ' ++ ds) : m = n ∧ cs = ds := by
  induction m generalizing n with
  | zero =>
    cases n with
    | zero => exact ⟨rfl, h⟩
    | succ n =>
      have hcs' : cs = _ := h
      rw [hcs'] at hcs
      exact absurd rfl hcs
  | succ m ih =>
    cases n with
    | zero =>
      have hds' : _ = ds := h
      rw [← hds'] at hds
      exact absurd rfl hds
    | succ n =>
      obtain ⟨rfl, hrest⟩ := ih (List.cons.inj h).2
      exact ⟨rfl, hrest⟩

theorem Line.Clean.newline_indented {l : Line} (h : l.Clean) (n : Nat) :
    '\n' ∉ List.replicate n ' ' ++ l.content.toList := by
  intro hmem
  rcases List.mem_append.mp hmem with hmem | hmem
  · exact absurd (List.eq_of_mem_replicate hmem) (by decide)
  · exact h.newline hmem

section

variable {indent : String} {width : Nat} (hindent : indent.toList = List.replicate (width + 1) ' ')
include hindent

theorem toList_render_cons (l : Line) (ls : List Line) :
    (render indent (l :: ls)).toList =
      (List.replicate (l.depth * (width + 1)) ' ' ++ l.content.toList) ++ '\n' ::
        (render indent ls).toList := by
  have hblanks : (String.join (List.replicate l.depth indent)).toList =
      List.replicate (l.depth * (width + 1)) ' ' := by
    rw [String.toList_join]
    induction l.depth with
    | zero => simp
    | succ n ih =>
      rw [List.replicate_succ, List.flatMap_cons, ih, hindent, List.replicate_append_replicate,
        Nat.succ_mul, Nat.add_comm (n * _)]
  simp [render, Line.render, hblanks]

theorem render_injective {as bs : List Line} (has : ∀ l ∈ as, l.Clean) (hbs : ∀ l ∈ bs, l.Clean)
    (h : render indent as = render indent bs) : as = bs := by
  have hne : ∀ l ls, render indent (l :: ls) ≠ render indent [] := by
    intro l ls heq
    have := congrArg (fun text => text.toList.length) heq
    simp only [toList_render_cons hindent] at this
    simp at this
  induction as generalizing bs with
  | nil =>
    cases bs with
    | nil => rfl
    | cons b bs => exact absurd h.symm (hne b bs)
  | cons a as ih =>
    cases bs with
    | nil => exact absurd h (hne a as)
    | cons b bs =>
      have ha := has a (List.mem_cons_self ..)
      have hb := hbs b (List.mem_cons_self ..)
      have hchars := congrArg String.toList h
      rw [toList_render_cons hindent, toList_render_cons hindent] at hchars
      obtain ⟨hline, hrest⟩ :=
        Text.before_unique (ha.newline_indented _) (hb.newline_indented _) hchars
      obtain ⟨hdepth, hcontent⟩ := indent_unique ha.blank hb.blank hline
      have hdepth' : a.depth = b.depth := Nat.eq_of_mul_eq_mul_right (Nat.succ_pos width) hdepth
      have hfirst : a = b := by
        cases a
        cases b
        exact Line.mk.injEq .. ▸ ⟨hdepth', String.toList_inj.mp hcontent⟩
      have htail : as = bs := ih (fun l hl => has l (List.mem_cons_of_mem _ hl))
        (fun l hl => hbs l (List.mem_cons_of_mem _ hl)) (String.toList_inj.mp hrest)
      rw [hfirst, htail]

end

/-! ## Lines that start behind their indentation -/

/-- A text that a line can start with: no blank stands first, and no end of a line anywhere. -/
def OpensLine (text : List Char) : Prop :=
  '\n' ∉ text ∧ text.head?.any (!Text.isBlank ·) = true

instance (text : List Char) : Decidable (OpensLine text) :=
  inferInstanceAs (Decidable (_ ∧ _))

theorem OpensLine.append {front back : List Char} (h : OpensLine front) (hback : '\n' ∉ back) :
    OpensLine (front ++ back) := by
  refine ⟨by simp [h.1, hback], ?_⟩
  cases front with
  | nil => cases h.2
  | cons c cs => exact h.2

theorem OpensLine.exists_cons {text : List Char} (h : OpensLine text) :
    ∃ c cs, text = c :: cs ∧ Text.isBlank c = false := by
  cases text with
  | nil => cases h.2
  | cons c cs => exact ⟨c, cs, rfl, by simpa using h.2⟩

theorem opensLine_append {front back : String} (hfront : OpensLine front.toList)
    (hback : '\n' ∉ back.toList) : OpensLine (front ++ back).toList := by
  rw [String.toList_append]
  exact hfront.append hback

/-- Every line starts behind its indentation and ends with it. -/
def OpenLines (ls : List Line) : Prop :=
  ∀ l ∈ ls, OpensLine l.content.toList

theorem openLines_nil : OpenLines [] :=
  nofun

theorem OpenLines.cons {l : Line} {ls : List Line} (hl : OpensLine l.content.toList)
    (hls : OpenLines ls) : OpenLines (l :: ls) :=
  List.forall_mem_cons.mpr ⟨hl, hls⟩

theorem OpenLines.append {as bs : List Line} (has : OpenLines as) (hbs : OpenLines bs) :
    OpenLines (as ++ bs) :=
  List.forall_mem_append.mpr ⟨has, hbs⟩

theorem clean_of_opensLine {l : Line} (h : OpensLine l.content.toList) : l.Clean := by
  refine ⟨h.1, ?_⟩
  intro hblank
  obtain ⟨c, cs, htext, hc⟩ := h.exists_cons
  rw [htext, List.head?_cons, Option.some.injEq] at hblank
  rw [hblank] at hc
  cases hc

/-! ## Where parts end -/

/-- No line at the given depth or deeper follows. -/
def Closes (depth : Nat) (r : List Line) : Prop :=
  ∀ l rest, r = l :: rest → l.depth < depth

theorem closes_cons {depth : Nat} {l : Line} (h : l.depth < depth) (r : List Line) :
    Closes depth (l :: r) := by
  intro l' rest hl
  rw [← (List.cons.inj hl).1]
  exact h

theorem Closes.mono {depth depth' : Nat} {r : List Line} (h : Closes depth r)
    (hle : depth ≤ depth') : Closes depth' r :=
  fun l rest hr => Nat.lt_of_lt_of_le (h l rest hr) hle

theorem Closes.ne_cons {depth : Nat} {content : String} {r r' : List Line} (h : Closes depth r) :
    r ≠ ⟨depth, content⟩ :: r' := by
  intro hr
  exact Nat.lt_irrefl depth (h _ _ hr)

end Bukvar.Layout
