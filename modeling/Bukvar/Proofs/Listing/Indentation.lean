import Bukvar.Proofs.Listing.LoopCondition
import Bukvar.Proofs.Listing.Pages
import Bukvar.Proofs.Parsing.Legibility

/-!
# The indentation of a listing

The depths of lines can be told from the text of a listing in two ways: by its indentation, and by
counting its braces. Names and strings of the program stand in the lines and can hold braces and
blanks, but no line consists of a brace that the listing did not put there, and none starts with a
blank behind its indentation. So the two ways agree, and neither depends on what the indentation
looks like.

* `nested?_contents`: counting braces gives the depths of all lines.
* `Rows.unique`: the lines of a text are determined by it.
* `rows_generate`: the lines of the text of a listing.
* `indentation_follows_braces`: listings of sources.
-/

namespace Bukvar.Listing

open Layout (Line OpensLine)

/-! ## Counting braces -/

/-- The depths that braces give to the texts of lines: the lines behind an opening brace are one
step deeper, up to the closing one. There are none if a brace closes nothing or is left open. -/
def nested? (depth : Nat) : List String → Option (List Line)
  | [] => if depth = 0 then some [] else none
  | content :: rest =>
    if content = "\x7b" then (nested? (depth + 1) rest).map (⟨depth, content⟩ :: ·)
    else if content = "\x7d" then
      match depth with
      | 0 => none
      | outer + 1 => (nested? outer rest).map (⟨outer, content⟩ :: ·)
    else (nested? depth rest).map (⟨depth, content⟩ :: ·)

theorem nested?_nil : nested? 0 [] = some [] := by
  rw [nested?.eq_def]
  rfl

theorem nested?_opening (depth : Nat) (rest : List String) :
    nested? depth ("\x7b" :: rest) = (nested? (depth + 1) rest).map (⟨depth, "\x7b"⟩ :: ·) := by
  rw [nested?.eq_def]
  rfl

theorem nested?_closing (depth : Nat) (rest : List String) :
    nested? (depth + 1) ("\x7d" :: rest) = (nested? depth rest).map (⟨depth, "\x7d"⟩ :: ·) := by
  rw [nested?.eq_def]
  rfl

theorem nested?_other {content : String} (h : isBrace content = false) (depth : Nat)
    (rest : List String) :
    nested? depth (content :: rest) = (nested? depth rest).map (⟨depth, content⟩ :: ·) := by
  obtain ⟨hopening, hclosing⟩ := isBrace_eq_false_iff.mp h
  rw [nested?.eq_def]
  simp only [if_neg hopening, if_neg hclosing]

/-- Counting braces over the lines from the given depth gives their depths, and ends at the same
depth. -/
def Nested (depth : Nat) (ls : List Line) : Prop :=
  ∀ rest, nested? depth (contents ls ++ rest) = (nested? depth rest).map (ls ++ ·)

theorem nested_nil (depth : Nat) : Nested depth [] := by
  intro rest
  exact (Option.map_id' ..).symm

theorem nested_cons {depth : Nat} {content : String} {ls : List Line}
    (hcontent : isBrace content = false) (h : Nested depth ls) :
    Nested depth (⟨depth, content⟩ :: ls) := by
  intro rest
  change nested? depth (content :: (contents ls ++ rest)) = _
  rw [nested?_other hcontent, h rest, Option.map_map]
  rfl

theorem Nested.append {depth : Nat} {as bs : List Line} (has : Nested depth as)
    (hbs : Nested depth bs) : Nested depth (as ++ bs) := by
  intro rest
  rw [contents, List.map_append, List.append_assoc]
  change nested? depth (contents as ++ (contents bs ++ rest)) = _
  rw [has, hbs, Option.map_map]
  congr 1
  funext ls
  exact (List.append_assoc ..).symm

theorem Nested.braced {depth : Nat} {body : List Line} (h : Nested (depth + 1) body) :
    Nested depth (braced depth body) := by
  intro rest
  have hcontents : contents (Listing.braced depth body) ++ rest =
      "\x7b" :: (contents body ++ "\x7d" :: rest) := by
    simp [contents, Listing.braced]
  rw [hcontents, nested?_opening, h, nested?_closing, Option.map_map, Option.map_map]
  congr 1
  funext ls
  simp [Listing.braced]

mutual

theorem nested_stmtLines (intMain : Bool) (depth counters : Nat) (s : Stmt) :
    Nested depth (stmtLines intMain depth counters s) := by
  rw [stmtLines_eq]
  refine nested_cons (isBrace_headText intMain counters s) ?_
  cases s with
  | branch condition body arms =>
    exact (nested_blockLines intMain (depth + 1) counters body).braced.append
      (nested_armsLines intMain depth counters arms)
  | counted count body => exact (nested_blockLines intMain (depth + 1) (counters + 1) body).braced
  | loop condition body test =>
    have hbody := (nested_blockLines intMain (depth + 1) counters body).braced
    cases test with
    | pre => exact hbody
    | post =>
      exact hbody.append (nested_cons (isBrace_append _ rfl (by decide)) (nested_nil depth))
  | _ => exact nested_nil depth

theorem nested_armsLines (intMain : Bool) (depth counters : Nat) (a : Arms) :
    Nested depth (armsLines intMain depth counters a) := by
  cases a with
  | done => exact nested_nil depth
  | otherwise body =>
    rw [armsLines]
    split
    · exact nested_nil depth
    · exact nested_cons rfl (nested_blockLines intMain (depth + 1) counters body).braced
  | elseIf condition body rest =>
    rw [armsLines]
    refine .append (nested_cons (isBrace_append _ rfl (by decide)) ?_)
      (nested_armsLines intMain depth counters rest)
    exact (nested_blockLines intMain (depth + 1) counters body).braced

theorem nested_blockLines (intMain : Bool) (depth counters : Nat) (b : List Stmt) :
    Nested depth (blockLines intMain depth counters b) := by
  cases b with
  | nil => exact nested_nil depth
  | cons s rest =>
    rw [blockLines]
    exact (nested_stmtLines intMain depth counters s).append
      (nested_blockLines intMain depth counters rest)

end

/-- A text that starts with something else is no brace. -/
theorem isBrace_prepend {front : String} {c : Char} {cs : List Char}
    (hfront : front.toList = c :: cs) (hc : c ≠ '\x7b' ∧ c ≠ '\x7d') (back : String) :
    isBrace (front ++ back) = false := by
  have hne : ∀ brace : String, brace.toList.head? ≠ some c → front ++ back ≠ brace := by
    rintro _ h rfl
    rw [String.toList_append, hfront] at h
    exact h rfl
  rw [isBrace_eq_false_iff]
  exact ⟨hne _ fun h => hc.1 (Option.some.inj h).symm, hne _ fun h => hc.2 (Option.some.inj h).symm⟩

/-- The braces of a listing give the depths of its lines, whatever stands in them. -/
theorem nested?_contents (options : Options) (p : Program) :
    nested? 0 (contents (lines options p)) = some (lines options p) := by
  have hmain : Nested 2 (mainLines p) := by
    refine (nested_blockLines _ 2 0 p).append ?_
    unfold closingReturn
    split
    · exact nested_cons rfl (nested_nil 2)
    · exact nested_nil 2
  have htype : isBrace ("public static " ++ mainType p ++ " Main()") = false :=
    isBrace_append _ rfl (by decide)
  have hall : Nested 0 (lines options p) := by
    refine nested_cons rfl (nested_cons rfl (nested_cons ?_ (nested_cons rfl (nested_cons ?_ ?_))))
    · exact isBrace_append _ rfl (by decide)
    · exact isBrace_prepend rfl (by decide) _
    · exact (nested_cons htype hmain.braced).braced
  have := hall []
  rw [List.append_nil] at this
  rw [this, nested?_nil, Option.map_some, List.append_nil]

/-! ## The lines of a text -/

/-- The lines of a text in which every line ends with a newline. -/
structure Rows (text : String) (rows : List String) : Prop where
  text_eq : text = String.join (rows.map (· ++ "\n"))
  newline : ∀ row ∈ rows, '\n' ∉ row.toList

/-- A text has one list of lines. -/
theorem Rows.unique {text : String} {rows rows' : List String} (h : Rows text rows)
    (h' : Rows text rows') : rows = rows' := by
  obtain ⟨rfl, hnewline⟩ := h
  obtain ⟨htext, hnewline'⟩ := h'
  rw [← String.toList_inj] at htext
  simp only [String.toList_join, List.flatMap_map, String.toList_append] at htext
  induction rows generalizing rows' with
  | nil =>
    cases rows' with
    | nil => rfl
    | cons row' rest' => simp at htext
  | cons row rest ih =>
    cases rows' with
    | nil => simp at htext
    | cons row' rest' =>
      obtain ⟨hrow, hrest⟩ := List.forall_mem_cons.mp hnewline
      obtain ⟨hrow', hrest'⟩ := List.forall_mem_cons.mp hnewline'
      simp only [List.flatMap_cons, List.append_assoc] at htext
      obtain ⟨hfirst, htail⟩ := Text.before_unique hrow hrow' htext
      rw [String.toList_inj.mp hfirst, ih hrest hrest' htail]

/-- What is taken for indentation. -/
def isIndent (c : Char) : Bool :=
  c = ' ' || c = '\t'

/-- What comes behind the indentation. -/
def unindented (row : String) : String :=
  String.ofList (row.toList.dropWhile isIndent)

/-- A line with its indentation. -/
def indented (indent : String) (l : Line) : String :=
  String.join (List.replicate l.depth indent) ++ l.content

/-- The names do not end their lines, and one step of depth is something that is taken for
indentation. -/
structure Options.Indented (options : Options) : Prop extends options.OneLine where
  indent : ∀ c ∈ options.indent.toList, isIndent c = true

theorem isBlank_of_isIndent {c : Char} (h : isIndent c = true) : Text.isBlank c = true := by
  rw [isIndent, Bool.or_eq_true, decide_eq_true_iff, decide_eq_true_iff] at h
  rcases h with rfl | rfl <;> decide

section

variable {indent : String} (hindent : ∀ c ∈ indent.toList, isIndent c = true)
include hindent

theorem isIndent_of_mem_join (depth : Nat) :
    ∀ c ∈ (String.join (List.replicate depth indent)).toList, isIndent c = true := by
  rw [String.toList_join]
  intro c hc
  obtain ⟨text, htext, hc⟩ := List.mem_flatMap.mp hc
  exact hindent c (List.eq_of_mem_replicate htext ▸ hc)

theorem rows_render {ls : List Line} (hls : ∀ l ∈ ls, '\n' ∉ l.content.toList) :
    Rows (Layout.render indent ls) (ls.map (indented indent)) := by
  constructor
  · rw [List.map_map]
    rfl
  · intro row hrow
    obtain ⟨l, hl, rfl⟩ := List.mem_map.mp hrow
    rw [indented, String.toList_append, List.mem_append]
    rintro (h | h)
    · cases isIndent_of_mem_join hindent l.depth _ h
    · exact hls l hl h

theorem unindented_indented {l : Line} (hl : l.content.toList.head?.any isIndent = false) :
    unindented (indented indent l) = l.content := by
  have hcontent : l.content.toList.dropWhile isIndent = l.content.toList := by
    cases hlist : l.content.toList with
    | nil => rfl
    | cons c cs =>
      rw [hlist, List.head?_cons, Option.any_some] at hl
      exact List.dropWhile_cons_of_neg (by simp [hl])
  rw [unindented, indented, String.toList_append,
    List.dropWhile_append_of_pos (isIndent_of_mem_join hindent l.depth), hcontent,
    String.ofList_toList]

end

theorem isIndent_of_opensLine {text : List Char} (h : OpensLine text) :
    text.head?.any isIndent = false := by
  obtain ⟨c, cs, rfl, hc⟩ := h.exists_cons
  rw [List.head?_cons, Option.any_some, ← Bool.not_eq_true]
  intro hindent
  rw [isBlank_of_isIndent hindent] at hc
  cases hc

/-! ## Indentation and braces -/

/-- The two lines of a listing that hold the names that are chosen for it, with other names. -/
def renamed (options : Options) (ls : List Line) : List Line :=
  (ls.set 2 ⟨0, "namespace " ++ options.nameSpace ++ ";"⟩).set 4
    ⟨0, "public class " ++ options.className⟩

theorem renamed_lines (options options' : Options) (p : Program) :
    renamed options' (lines options p) = lines options' p := rfl

/-- The lines of the text of a listing, and what comes behind their indentation. -/
theorem rows_generate {named : String → Prop} (hnamed : ∀ n, named n → OpensLine n.toList)
    {options : Options} (hoptions : options.Indented) {p : Program} (hp : LegibleBlock named p) :
    Rows (generate options p) ((lines options p).map (indented options.indent)) ∧
      ((lines options p).map (indented options.indent)).map unindented =
        contents (lines options p) := by
  have hlines : ∀ l ∈ lines options p, '\n' ∉ l.content.toList ∧
      l.content.toList.head?.any isIndent = false := by
    intro l hl
    obtain ⟨i, hi⟩ := List.getElem?_of_mem hl
    have hopens := opensLine_lines hnamed hoptions.toOneLine hp hi
    split at hopens
    · rw [hopens]
      decide
    · exact ⟨hopens.1, isIndent_of_opensLine hopens⟩
  rw [generate_eq]
  refine ⟨rows_render hoptions.indent fun l hl => (hlines l hl).1, ?_⟩
  rw [List.map_map]
  exact List.map_congr_left fun l hl => unindented_indented hoptions.indent (hlines l hl).2

/-- The text of the listing of a source consists of lines whose indentation is given by the braces
before them. Except for the second and the fourth line, which are empty, each has something behind
its indentation. All nodes of the program have their lines there, two steps deeper than the blocks
around them. With other options the same lines have the same depths, and only the two lines that
name the namespace and the class have other texts. -/
theorem indentation_follows_braces {c : Compiler} {source : String} {p : Program}
    (hparse : (c.parse source).outcome = .done p) {options : Options}
    (hoptions : options.Indented) :
    ∃ (rows : List String) (es : List Entry),
      Rows (generate options p) rows ∧
      nested? 0 (rows.map unindented) = some (es.map Entry.line) ∧
      es.map Entry.line = lines options p ∧
      rows = es.map (fun e => indented options.indent e.line) ∧
      (∀ i e, es[i]? = some e →
        if i = 1 ∨ i = 3 then e.line = ⟨0, ""⟩
        else ∃ first rest, e.line.content.toList = first :: rest ∧ Text.isBlank first = false) ∧
      es.filterMap Entry.started? = nodes p ∧
      (∀ e ∈ es, ∀ n, e.started? = some n →
        e.line.content = headText (returnsValue p) n.counters n.stmt) ∧
      (∀ e ∈ es, ∀ n, e.node? = some n → e.line.depth = 2 + n.around.length) ∧
      ∀ options' : Options, options'.Indented →
        ∃ rows', Rows (generate options' p) rows' ∧
          nested? 0 (rows'.map unindented) = some (renamed options' (es.map Entry.line)) := by
  obtain ⟨ts, htokens, -, hlegible⟩ := Compiler.legible_of_parse hparse
  let named (n : String) : Prop := OpensLine n.toList
  have hp : LegibleBlock named p :=
    hlegible named fun t ht _ => opensLine_of_isUnit (htokens.isUnit ht)
  have hrows : ∀ options' : Options, options'.Indented →
      Rows (generate options' p) ((lines options' p).map (indented options'.indent)) ∧
        nested? 0 (((lines options' p).map (indented options'.indent)).map unindented) =
          some (lines options' p) := by
    intro options' hoptions'
    obtain ⟨htext, hcontents⟩ := rows_generate (fun _ hn => hn) hoptions' hp
    exact ⟨htext, hcontents ▸ nested?_contents options' p⟩
  refine ⟨_, entries options p, (hrows options hoptions).1, ?_, map_line_entries options p, ?_, ?_,
    ?_, ?_, ?_, ?_⟩
  · rw [map_line_entries]
    exact (hrows options hoptions).2
  · rw [← map_line_entries, List.map_map]
    rfl
  · intro i e he
    have hl : (lines options p)[i]? = some e.line := by
      rw [← map_line_entries, List.getElem?_map, he, Option.map_some]
    have hopens := opensLine_lines (fun _ hn => hn) hoptions.toOneLine hp hl
    by_cases hi : i = 1 ∨ i = 3
    · rw [if_pos hi] at hopens ⊢
      exact hopens
    · rw [if_neg hi] at hopens ⊢
      exact hopens.exists_cons
  · exact filterMap_started?_entries options p
  · exact fun e he => (placed_entries options p e he).first
  · exact fun e he => (placed_entries options p e he).depth
  · intro options' hoptions'
    refine ⟨_, (hrows options' hoptions').1, ?_⟩
    rw [map_line_entries, renamed_lines]
    exact (hrows options' hoptions').2

/-- Options with a tab for every step, and with a brace for the name of the class. -/
def tabbed : Options :=
  ⟨"Names", "\x7b", "\t"⟩

/-- The lines of a loop over a variable whose name is a brace. -/
def bracesListing : List Line :=
  [⟨0, "using System;"⟩, ⟨0, ""⟩, ⟨0, "namespace Names;"⟩, ⟨0, ""⟩, ⟨0, "public class \x7b"⟩,
    ⟨0, "\x7b"⟩, ⟨1, "public static void Main()"⟩, ⟨1, "\x7b"⟩, ⟨2, "int \x7d;"⟩,
    ⟨2, "for (int _i1 = 0; _i1 < \x7d; _i1++)"⟩, ⟨2, "\x7b"⟩,
    ⟨3, "Console.WriteLine(\" \x7b\");"⟩, ⟨2, "\x7d"⟩, ⟨1, "\x7d"⟩, ⟨0, "\x7d"⟩]

theorem indentation_follows_braces_named :
    tabbed.Indented ∧ ({} : Options).Indented ∧
      ∃ p rows rows',
        ((Compiler.fresh {}).parse
          "начало цел \x7d; нц \x7d раз написать \" \x7b\"; кц конец").outcome = .done p ∧
        Rows (generate tabbed p) rows ∧ nested? 0 (rows.map unindented) = some bracesListing ∧
        Rows (generate {} p) rows' ∧
        nested? 0 (rows'.map unindented) = some (renamed {} bracesListing) := by
  have htabbed : tabbed.Indented :=
    ⟨⟨by decide, by decide⟩, List.all_eq_true.mp (by decide)⟩
  have husual : ({} : Options).Indented :=
    ⟨⟨by decide, by decide⟩, List.all_eq_true.mp (by decide)⟩
  have hlines : ((Compiler.fresh {}).parse
      "начало цел \x7d; нц \x7d раз написать \" \x7b\"; кц конец").outcome.map (lines tabbed) =
        .done bracesListing := by
    decide +kernel
  obtain ⟨p, hparse, hp⟩ := Outcome.exists_of_map hlines
  obtain ⟨rows, es, hrows, hnested, hes, -, -, -, -, -, hrenamed⟩ :=
    indentation_follows_braces hparse htabbed
  obtain ⟨rows', hrows', hnested'⟩ := hrenamed {} husual
  rw [hes, hp] at hnested hnested'
  exact ⟨htabbed, husual, p, rows, rows', hparse, hrows, hnested, hrows', hnested'⟩

end Bukvar.Listing
