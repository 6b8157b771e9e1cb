import Bukvar.Proofs.Listing.FirstLines

/-!
# The statements behind the lines of a listing

A line inside `Main` belongs to a node: it is the first line of the statement or a further one, which
is a brace, the head of an arm or a condition behind its loop. `entries` are the lines of a listing
with what they are to the nodes of the program.

* `map_line_entries`: nothing but the lines is listed.
* `filterMap_started?_entries`: every node has its first line, in the order of the program.
* `forall_blockEntries`: how to show something of all lines of a block.
* `placed_entries`: the depths of lines, and the texts of first lines.
* `isFurther_of_started?`: the texts of the other lines.
* `isBrace_headText`: a first line is never a brace, whatever names stand in it.
-/

namespace Bukvar.Listing

open Layout (Line)

/-! ## Lines with their nodes -/

/-- What a line is to the statements of a program. -/
inductive Role where
  | starts (node : Node)
  | continues (node : Node)
  /-- The line belongs to no statement. -/
  | frame

/-- A line of a listing. -/
structure Entry where
  line : Line
  role : Role

namespace Entry

/-- A line that belongs to no statement. -/
def frame (line : Line) : Entry :=
  ⟨line, .frame⟩

/-- The node that the line belongs to. -/
def node? (e : Entry) : Option Node :=
  match e.role with
  | .starts n => some n
  | .continues n => some n
  | .frame => none

/-- The node whose first line it is. -/
def started? (e : Entry) : Option Node :=
  match e.role with
  | .starts n => some n
  | .continues _ => none
  | .frame => none

end Entry

namespace Node

/-- The first line of a node. -/
def first (intMain : Bool) (n : Node) : Entry :=
  ⟨⟨n.depth, headText intMain n.counters n.stmt⟩, .starts n⟩

/-- Another line of a node. -/
def further (n : Node) (text : String) : Entry :=
  ⟨⟨n.depth, text⟩, .continues n⟩

/-- Lines between the braces of a node. -/
def braced (n : Node) (body : List Entry) : List Entry :=
  n.further "\x7b" :: body ++ [n.further "\x7d"]

theorem map_line_braced (n : Node) (body : List Entry) :
    (n.braced body).map Entry.line = Listing.braced n.depth (body.map Entry.line) := by
  simp [braced, Listing.braced, further]

theorem filterMap_started?_braced (n : Node) (body : List Entry) :
    (n.braced body).filterMap Entry.started? = body.filterMap Entry.started? := by
  rw [braced, List.cons_append, List.filterMap_cons_none rfl, List.filterMap_append]
  exact List.append_nil _

end Node

mutual

/-- The lines of a statement behind its first one. -/
def furtherEntries (intMain : Bool) (n : Node) : Stmt → List Entry
  | .branch _ body arms =>
    n.braced (blockEntries intMain (n.around ++ [.body]) body) ++ armsEntries intMain n arms
  | .counted _ body => n.braced (blockEntries intMain (n.around ++ [.counted]) body)
  | .loop _ body .pre => n.braced (blockEntries intMain (n.around ++ [.loop .pre]) body)
  | .loop condition body .post =>
    n.braced (blockEntries intMain (n.around ++ [.loop .post]) body) ++
      [n.further ("while (" ++ exprText condition ++ ");")]
  | .declare .. | .assign _ | .write _ | .read .. | .giveBack _ => []

/-- The lines of the arms of a conditional. -/
def armsEntries (intMain : Bool) (n : Node) : Arms → List Entry
  | .done => []
  | .otherwise body =>
    if body.isEmpty then []
    else n.further "else" :: n.braced (blockEntries intMain (n.around ++ [.otherwise]) body)
  | .elseIf condition body rest =>
    n.further ("else if (" ++ exprText condition ++ ")") ::
      n.braced (blockEntries intMain (n.around ++ [.elseIf]) body) ++ armsEntries intMain n rest

/-- The lines of a block. -/
def blockEntries (intMain : Bool) (around : List BlockKind) : List Stmt → List Entry
  | [] => []
  | stmt :: rest =>
    (Node.mk around stmt).first intMain ::
      (furtherEntries intMain ⟨around, stmt⟩ stmt ++ blockEntries intMain around rest)

end

/-! ## The lines are those of the listing -/

theorem depth_append (around : List BlockKind) (kind : BlockKind) :
    2 + (around ++ [kind]).length = 2 + around.length + 1 := by
  rw [List.length_append, List.length_singleton, Nat.add_assoc]

theorem counters_append (around : List BlockKind) (kind : BlockKind) :
    (around ++ [kind]).count .counted =
      around.count .counted + if kind = .counted then 1 else 0 := by
  rw [List.count_append, List.count_singleton]
  simp only [beq_iff_eq]

mutual

theorem map_line_furtherEntries (intMain : Bool) (n : Node) (s : Stmt) :
    (furtherEntries intMain n s).map Entry.line = tailLines intMain n.depth n.counters s := by
  cases s with
  | branch condition body arms =>
    rw [furtherEntries, List.map_append, n.map_line_braced, map_line_blockEntries _ _ body,
      depth_append, counters_append, map_line_armsEntries _ _ arms]
    rfl
  | counted count body =>
    rw [furtherEntries, n.map_line_braced, map_line_blockEntries _ _ body, depth_append,
      counters_append]
    rfl
  | loop condition body test =>
    cases test with
    | pre =>
      rw [furtherEntries, n.map_line_braced, map_line_blockEntries _ _ body, depth_append,
        counters_append]
      rfl
    | post =>
      rw [furtherEntries, List.map_append, n.map_line_braced, map_line_blockEntries _ _ body,
        depth_append, counters_append]
      rfl
  | _ => rfl

theorem map_line_armsEntries (intMain : Bool) (n : Node) (a : Arms) :
    (armsEntries intMain n a).map Entry.line = armsLines intMain n.depth n.counters a := by
  cases a with
  | done => rfl
  | otherwise body =>
    rw [armsEntries, armsLines]
    split
    · rfl
    · rw [List.map_cons, n.map_line_braced, map_line_blockEntries _ _ body, depth_append,
        counters_append]
      rfl
  | elseIf condition body rest =>
    rw [armsEntries, List.map_append, List.map_cons, n.map_line_braced,
      map_line_blockEntries _ _ body, depth_append, counters_append,
      map_line_armsEntries _ _ rest, armsLines]
    rfl

theorem map_line_blockEntries (intMain : Bool) (around : List BlockKind) (b : List Stmt) :
    (blockEntries intMain around b).map Entry.line =
      blockLines intMain (2 + around.length) (around.count .counted) b := by
  cases b with
  | nil => rfl
  | cons s rest =>
    rw [blockEntries, List.map_cons, List.map_append, map_line_furtherEntries _ _ s,
      map_line_blockEntries _ _ rest, blockLines, stmtLines_eq]
    rfl

end

mutual

theorem filterMap_started?_furtherEntries (intMain : Bool) (n : Node) (s : Stmt) :
    (furtherEntries intMain n s).filterMap Entry.started? = innerNodes n.around s := by
  cases s with
  | branch condition body arms =>
    rw [furtherEntries, innerNodes, List.filterMap_append, n.filterMap_started?_braced,
      filterMap_started?_blockEntries _ _ body, filterMap_started?_armsEntries _ _ arms]
  | counted count body =>
    rw [furtherEntries, innerNodes, n.filterMap_started?_braced,
      filterMap_started?_blockEntries _ _ body]
  | loop condition body test =>
    cases test with
    | pre =>
      rw [furtherEntries, innerNodes, n.filterMap_started?_braced,
        filterMap_started?_blockEntries _ _ body]
    | post =>
      rw [furtherEntries, innerNodes, List.filterMap_append, n.filterMap_started?_braced,
        filterMap_started?_blockEntries _ _ body]
      exact List.append_nil _
  | _ => rfl

theorem filterMap_started?_armsEntries (intMain : Bool) (n : Node) (a : Arms) :
    (armsEntries intMain n a).filterMap Entry.started? = armsNodes n.around a := by
  cases a with
  | done => rfl
  | otherwise body =>
    cases body with
    | nil => rfl
    | cons s rest =>
      change ((n.further "else") :: n.braced _).filterMap Entry.started? = _
      rw [List.filterMap_cons_none rfl, n.filterMap_started?_braced,
        filterMap_started?_blockEntries _ _ (s :: rest), armsNodes]
  | elseIf condition body rest =>
    rw [armsEntries, armsNodes, List.filterMap_append, List.filterMap_cons_none rfl,
      n.filterMap_started?_braced, filterMap_started?_blockEntries _ _ body,
      filterMap_started?_armsEntries _ _ rest]

/-- The nodes of a block have their first lines in the order of the block. -/
theorem filterMap_started?_blockEntries (intMain : Bool) (around : List BlockKind)
    (b : List Stmt) :
    (blockEntries intMain around b).filterMap Entry.started? = blockNodes around b := by
  cases b with
  | nil => rfl
  | cons s rest =>
    have hfirst : ((Node.mk around s).first intMain).started? = some ⟨around, s⟩ := rfl
    rw [blockEntries, blockNodes, List.filterMap_cons_some hfirst, List.filterMap_append,
      filterMap_started?_furtherEntries _ _ s, filterMap_started?_blockEntries _ _ rest]

end

/-! ## All lines of a block -/

/-- The texts of the lines of a statement behind its first one. -/
inductive IsFurther : String → Prop where
  | opening : IsFurther "\x7b"
  | closing : IsFurther "\x7d"
  | otherwise : IsFurther "else"
  | elseIf (condition : Expr) : IsFurther ("else if (" ++ exprText condition ++ ")")
  | condition (condition : Expr) : IsFurther ("while (" ++ exprText condition ++ ");")

section

variable {P : Entry → Prop} {intMain : Bool}

/-- Something holds of the lines of all nodes in a block, and in the blocks inside it. -/
structure HoldsWithin (P : Entry → Prop) (intMain : Bool) (around : List BlockKind) : Prop where
  first : ∀ n : Node, around <+: n.around → P (n.first intMain)
  further : ∀ (n : Node) (text : String), IsFurther text → around <+: n.around →
    P (n.further text)

theorem HoldsWithin.inner {around : List BlockKind} (h : HoldsWithin P intMain around)
    (kind : BlockKind) : HoldsWithin P intMain (around ++ [kind]) :=
  ⟨fun n hn => h.first n ((List.prefix_append ..).trans hn),
    fun n text htext hn => h.further n text htext ((List.prefix_append ..).trans hn)⟩

theorem HoldsWithin.braced {n : Node} (h : HoldsWithin P intMain n.around) {body : List Entry}
    (hbody : ∀ e ∈ body, P e) : ∀ e ∈ n.braced body, P e := by
  intro e he
  simp only [Node.braced, List.cons_append, List.mem_cons, List.mem_append, List.not_mem_nil,
    or_false] at he
  rcases he with rfl | he | rfl
  · exact h.further n _ .opening List.prefix_rfl
  · exact hbody e he
  · exact h.further n _ .closing List.prefix_rfl

mutual

theorem forall_furtherEntries {n : Node} (h : HoldsWithin P intMain n.around) (s : Stmt) :
    ∀ e ∈ furtherEntries intMain n s, P e := by
  cases s with
  | branch condition body arms =>
    exact List.forall_mem_append.mpr
      ⟨h.braced (forall_blockEntries (h.inner _) body), forall_armsEntries h arms⟩
  | counted count body => exact h.braced (forall_blockEntries (h.inner _) body)
  | loop condition body test =>
    cases test with
    | pre => exact h.braced (forall_blockEntries (h.inner _) body)
    | post =>
      exact List.forall_mem_append.mpr ⟨h.braced (forall_blockEntries (h.inner _) body),
        List.forall_mem_singleton.mpr (h.further n _ (.condition condition) List.prefix_rfl)⟩
  | _ => exact nofun

theorem forall_armsEntries {n : Node} (h : HoldsWithin P intMain n.around) (a : Arms) :
    ∀ e ∈ armsEntries intMain n a, P e := by
  cases a with
  | done => exact nofun
  | otherwise body =>
    rw [armsEntries]
    split
    · exact nofun
    · exact List.forall_mem_cons.mpr ⟨h.further n _ .otherwise List.prefix_rfl,
        h.braced (forall_blockEntries (h.inner _) body)⟩
  | elseIf condition body rest =>
    rw [armsEntries]
    refine List.forall_mem_append.mpr ⟨List.forall_mem_cons.mpr ⟨?_, ?_⟩, forall_armsEntries h rest⟩
    · exact h.further n _ (.elseIf condition) List.prefix_rfl
    · exact h.braced (forall_blockEntries (h.inner _) body)

/-- What holds of the lines of every node in a block holds of all lines of the block. -/
theorem forall_blockEntries {around : List BlockKind} (h : HoldsWithin P intMain around)
    (b : List Stmt) : ∀ e ∈ blockEntries intMain around b, P e := by
  cases b with
  | nil => exact nofun
  | cons s rest =>
    rw [blockEntries]
    refine List.forall_mem_cons.mpr ⟨h.first _ List.prefix_rfl, List.forall_mem_append.mpr ⟨?_, ?_⟩⟩
    · exact forall_furtherEntries h s
    · exact forall_blockEntries h rest

end

end

/-- What is known of a line that belongs to a node. -/
structure Entry.Placed (intMain : Bool) (e : Entry) : Prop where
  depth : ∀ n, e.node? = some n → e.line.depth = 2 + n.around.length
  first : ∀ n, e.started? = some n → e.line.content = headText intMain n.counters n.stmt

theorem placed_blockEntries (intMain : Bool) (around : List BlockKind) (b : List Stmt) :
    ∀ e ∈ blockEntries intMain around b, e.Placed intMain := by
  apply forall_blockEntries
  constructor
  · rintro n -
    constructor
    · rintro _ ⟨⟩
      rfl
    · rintro _ ⟨⟩
      rfl
  · rintro n text - -
    constructor
    · rintro _ ⟨⟩
      rfl
    · exact nofun

theorem isFurther_of_started? {intMain : Bool} {around : List BlockKind} {b : List Stmt} {e : Entry}
    (he : e ∈ blockEntries intMain around b) (hnone : e.started? = none) :
    IsFurther e.line.content := by
  have hall : ∀ e ∈ blockEntries intMain around b,
      e.started? = none → IsFurther e.line.content := by
    apply forall_blockEntries
    exact ⟨fun n _ => nofun, fun n text htext _ _ => htext⟩
  exact hall e he hnone

/-! ## Braces -/

/-- Whether a line is a brace. -/
def isBrace (content : String) : Bool :=
  content = "\x7b" || content = "\x7d"

theorem isBrace_eq_false_iff {content : String} :
    isBrace content = false ↔ content ≠ "\x7b" ∧ content ≠ "\x7d" := by
  rw [isBrace, Bool.or_eq_false_iff, decide_eq_false_iff_not, decide_eq_false_iff_not]

/-- A text that ends with something else is no brace. -/
theorem isBrace_append (front : String) {back : String} {c : Char}
    (hback : back.toList.getLast? = some c) (hc : c ≠ '\x7b' ∧ c ≠ '\x7d') :
    isBrace (front ++ back) = false := by
  have hlast : (front ++ back).toList.getLast? = some c := by
    rw [String.toList_append, List.getLast?_append, hback]
    rfl
  have hne : ∀ brace : String, brace.toList.getLast? ≠ some c → front ++ back ≠ brace := by
    rintro _ h rfl
    exact h hlast
  rw [isBrace_eq_false_iff]
  exact ⟨hne _ fun h => hc.1 (Option.some.inj h).symm, hne _ fun h => hc.2 (Option.some.inj h).symm⟩

theorem isBrace_headText (intMain : Bool) (counters : Nat) (s : Stmt) :
    isBrace (headText intMain counters s) = false := by
  cases s with
  | declare type name init => cases init <;> exact isBrace_append _ rfl (by decide)
  | read target type => cases type <;> exact isBrace_append _ rfl (by decide)
  | giveBack value =>
    cases value with
    | none => cases intMain <;> rfl
    | some e => exact isBrace_append _ rfl (by decide)
  | loop condition body test =>
    cases test with
    | pre => exact isBrace_append _ rfl (by decide)
    | post => rfl
  | _ => exact isBrace_append _ rfl (by decide)

/-! ## Whole listings -/

/-- The lines in front of the statements of `Main`. -/
def frontLines (options : Options) (type : String) : List Line :=
  [⟨0, "using System;"⟩, ⟨0, ""⟩, ⟨0, "namespace " ++ options.nameSpace ++ ";"⟩, ⟨0, ""⟩,
    ⟨0, "public class " ++ options.className⟩, ⟨0, "\x7b"⟩,
    ⟨1, "public static " ++ type ++ " Main()"⟩, ⟨1, "\x7b"⟩]

/-- The lines behind the statements of `Main`. -/
def backLines : List Line :=
  [⟨1, "\x7d"⟩, ⟨0, "\x7d"⟩]

theorem lines_eq (options : Options) (p : Program) :
    lines options p = frontLines options (mainType p) ++ mainLines p ++ backLines := by
  simp [lines, frontLines, backLines, braced]

/-- The lines of a listing with their nodes. -/
def entries (options : Options) (p : Program) : List Entry :=
  (frontLines options (mainType p)).map Entry.frame ++ blockEntries (returnsValue p) [] p ++
    (closingReturn p ++ backLines).map Entry.frame

theorem map_line_frame (ls : List Line) : (ls.map Entry.frame).map Entry.line = ls := by
  rw [List.map_map]
  exact List.map_id ls

theorem filterMap_started?_frame (ls : List Line) :
    (ls.map Entry.frame).filterMap Entry.started? = [] := by
  rw [List.filterMap_map, List.filterMap_eq_nil_iff]
  intro l _
  rfl

theorem map_line_entries (options : Options) (p : Program) :
    (entries options p).map Entry.line = lines options p := by
  rw [entries, List.map_append, List.map_append, map_line_frame, map_line_frame,
    map_line_blockEntries, lines_eq, mainLines]
  simp only [List.append_assoc]
  rfl

theorem filterMap_started?_entries (options : Options) (p : Program) :
    (entries options p).filterMap Entry.started? = nodes p := by
  rw [entries, List.filterMap_append, List.filterMap_append, filterMap_started?_frame,
    filterMap_started?_frame, filterMap_started?_blockEntries, List.append_nil]
  rfl

theorem placed_entries (options : Options) (p : Program) :
    ∀ e ∈ entries options p, e.Placed (returnsValue p) := by
  have hframe : ∀ ls : List Line, ∀ e ∈ ls.map Entry.frame, e.Placed (returnsValue p) := by
    intro ls e he
    obtain ⟨l, -, rfl⟩ := List.mem_map.mp he
    exact ⟨nofun, nofun⟩
  rw [entries, List.forall_mem_append, List.forall_mem_append]
  exact ⟨⟨hframe _, placed_blockEntries _ _ p⟩, hframe _⟩

end Bukvar.Listing
