import Bukvar.Proofs.Listing.Counters
import Bukvar.Proofs.Listing.Entries

/-!
# Counted loops inside each other

The counter of a loop is numbered by the counted loops around it, through all other blocks in
between. What stands before or behind a loop in its block has no part in its number, and a loop in
the body of another one has a greater number.

* `loopsNested_append`, `loopsNested_blockEntries`: the lines in the body of a loop are those of the
  nodes in its block.
* `counters_count_loops`: the counters of the loops of a program.
-/

namespace Bukvar.Listing

open Layout (Line)

/-- The line `j` lies between the braces that are opened behind the line `i`. -/
def InBody (ls : List Line) (i j : Nat) : Prop :=
  i + 1 < j ∧ ∃ header ∈ ls[i]?, ls[i + 1]? = some ⟨header.depth, "\x7b"⟩ ∧
    ∀ k ≤ j, i + 1 < k → ∃ l ∈ ls[k]?, header.depth < l.depth

instance (ls : List Line) (i j : Nat) : Decidable (InBody ls i j) :=
  inferInstanceAs (Decidable (_ ∧ _))

/-- The statement is a counted loop. -/
def Node.IsCounted (n : Node) : Prop :=
  ∃ count body, n.stmt = .counted count body

/-- A statement whose first line lies in the body of a counted loop is in the block of the loop. -/
def LoopsNested (es : List Entry) : Prop :=
  ∀ i j outer inner n n', InBody (es.map Entry.line) i j → es[i]? = some outer →
    es[j]? = some inner → outer.started? = some n → n.IsCounted → inner.started? = some n' →
    n.around ++ [.counted] <+: n'.around

/-! ## Lines put together -/

theorem InBody.of_cons {l : Line} {ls : List Line} {i j : Nat}
    (h : InBody (l :: ls) (i + 1) (j + 1)) : InBody ls i j := by
  obtain ⟨hlt, header, hheader, hopening, hdeeper⟩ := h
  refine ⟨by omega, header, by simpa using hheader, by simpa using hopening, ?_⟩
  intro k hkj hk
  simpa using hdeeper (k + 1) (by omega) (by omega)

theorem InBody.left {as bs : List Line} {i j : Nat} (h : InBody (as ++ bs) i j)
    (hj : j < as.length) : InBody as i j := by
  obtain ⟨hlt, header, hheader, hopening, hdeeper⟩ := h
  rw [List.getElem?_append_left (by omega)] at hheader hopening
  refine ⟨hlt, header, hheader, hopening, ?_⟩
  intro k hkj hk
  have := hdeeper k hkj hk
  rwa [List.getElem?_append_left (by omega)] at this

theorem InBody.right {as bs : List Line} {i j : Nat} (h : InBody (as ++ bs) i j)
    (hi : as.length ≤ i) : InBody bs (i - as.length) (j - as.length) := by
  obtain ⟨hlt, header, hheader, hopening, hdeeper⟩ := h
  rw [List.getElem?_append_right (by omega)] at hheader hopening
  rw [Nat.sub_add_comm hi] at hopening
  refine ⟨by omega, header, hheader, hopening, ?_⟩
  intro k hkj hk
  have := hdeeper (k + as.length) (by omega) (by omega)
  rwa [List.getElem?_append_right (by omega), Nat.add_sub_cancel] at this

theorem loopsNested_cons {e : Entry} {es : List Entry} (h : LoopsNested es)
    (he : ∀ n, e.started? = some n → n.IsCounted →
      ∀ x ∈ es, ∀ n', x.started? = some n' → n.around ++ [.counted] <+: n'.around) :
    LoopsNested (e :: es) := by
  intro i j outer inner n n' hbody houter hinner hn hcounted hn'
  obtain ⟨j, rfl⟩ : ∃ j', j = j' + 1 := ⟨j - 1, by have := hbody.1; omega⟩
  rw [List.getElem?_cons_succ] at hinner
  cases i with
  | zero =>
    cases houter
    exact he n hn hcounted inner (List.mem_of_getElem? hinner) n' hn'
  | succ i =>
    rw [List.getElem?_cons_succ] at houter
    exact h i j outer inner n n' hbody.of_cons houter hinner hn hcounted hn'

theorem loopsNested_nil : LoopsNested [] := by
  intro i j outer inner n n' _ houter
  cases houter

/-- Lines that belong to no statement can stand in front. -/
theorem loopsNested_frame (ls : List Line) {es : List Entry} (h : LoopsNested es) :
    LoopsNested (ls.map Entry.frame ++ es) := by
  induction ls with
  | nil => exact h
  | cons l ls ih => exact loopsNested_cons ih nofun

/-- The first line is no opening brace and no deeper than given. -/
def EndsBodies (depth : Nat) (es : List Entry) : Prop :=
  ∀ e ∈ es.head?, e.line.depth ≤ depth ∧ e.line.content ≠ "\x7b"

theorem endsBodies_cons {depth : Nat} {e : Entry} {es : List Entry} (hdepth : e.line.depth ≤ depth)
    (hcontent : e.line.content ≠ "\x7b") : EndsBodies depth (e :: es) := by
  rintro _ ⟨⟩
  exact ⟨hdepth, hcontent⟩

theorem ne_opening {content : String} (h : isBrace content = false) : content ≠ "\x7b" :=
  (isBrace_eq_false_iff.mp h).1

/-- Lines can follow that are not in the body of any line before them. -/
theorem loopsNested_append {depth : Nat} {as bs : List Entry} (has : LoopsNested as)
    (hbs : LoopsNested bs) (hdepth : ∀ e ∈ as, depth ≤ e.line.depth) (hends : EndsBodies depth bs) :
    LoopsNested (as ++ bs) := by
  intro i j outer inner n n' hbody houter hinner hn hcounted hn'
  have hlength : (as.map Entry.line).length = as.length := List.length_map _
  rw [List.map_append] at hbody
  by_cases hj : j < as.length
  · have hlt := hbody.1
    rw [List.getElem?_append_left (by omega)] at houter hinner
    exact has i j outer inner n n' (hbody.left (by omega)) houter hinner hn hcounted hn'
  by_cases hi : as.length ≤ i
  · have hlt := hbody.1
    rw [List.getElem?_append_right (by omega)] at houter hinner
    have hright := hbody.right (by omega)
    rw [hlength] at hright
    exact hbs _ _ outer inner n n' hright houter hinner hn hcounted hn'
  -- The first line of the second part stands where it would have to be in the body.
  · exfalso
    obtain ⟨hlt, header, hheader, hopening, hdeeper⟩ := hbody
    rw [List.getElem?_append_left (by omega)] at hheader
    obtain ⟨e, he, rfl⟩ := List.mem_map.mp (List.mem_of_getElem? hheader)
    have hle := hdepth e he
    have hfirst : ∀ l, (as.map Entry.line ++ bs.map Entry.line)[as.length]? = some l →
        l.depth ≤ depth ∧ l.content ≠ "\x7b" := by
      intro l hl
      rw [List.getElem?_append_right (by omega), hlength, Nat.sub_self, ← List.head?_eq_getElem?,
        List.head?_map] at hl
      obtain ⟨x, hx, rfl⟩ := Option.map_eq_some_iff.mp hl
      exact hends x hx
    rcases Nat.lt_or_ge (i + 1) as.length with hlt' | hge
    · obtain ⟨l, hl, hdeep⟩ := hdeeper as.length (by omega) hlt'
      have := (hfirst l hl).1
      omega
    · have hnext : i + 1 = as.length := by omega
      rw [hnext] at hopening
      exact (hfirst _ hopening).2 rfl

/-! ## Lines of blocks -/

variable {intMain : Bool}

theorem holdsWithin_depth (intMain : Bool) (around : List BlockKind) :
    HoldsWithin (fun e => 2 + around.length ≤ e.line.depth) intMain around :=
  ⟨fun _ hn => Nat.add_le_add_left hn.length_le 2,
    fun _ _ _ hn => Nat.add_le_add_left hn.length_le 2⟩

theorem holdsWithin_around (intMain : Bool) (around : List BlockKind) :
    HoldsWithin (fun e => ∀ n, e.started? = some n → around <+: n.around) intMain around := by
  constructor
  · rintro n hn _ ⟨⟩
    exact hn
  · exact nofun

theorem depth_le_braced (n : Node) (kind : BlockKind) (b : List Stmt) :
    ∀ e ∈ n.braced (blockEntries intMain (n.around ++ [kind]) b), n.depth ≤ e.line.depth :=
  have h := holdsWithin_depth intMain n.around
  h.braced (forall_blockEntries (h.inner kind) b)

theorem loopsNested_braced {n : Node} {kind : BlockKind} {b : List Stmt}
    (h : LoopsNested (blockEntries intMain (n.around ++ [kind]) b)) :
    LoopsNested (n.braced (blockEntries intMain (n.around ++ [kind]) b)) := by
  have hdepth := forall_blockEntries (holdsWithin_depth intMain (n.around ++ [kind])) b
  refine loopsNested_cons (loopsNested_append h ?_ hdepth ?_) nofun
  · exact loopsNested_cons loopsNested_nil nofun
  · refine endsBodies_cons ?_ (show "\x7d" ≠ "\x7b" by decide)
    rw [depth_append]
    exact Nat.le_succ n.depth

theorem endsBodies_armsEntries (n : Node) (a : Arms) :
    EndsBodies n.depth (armsEntries intMain n a) := by
  cases a with
  | done => exact nofun
  | otherwise body =>
    rw [armsEntries]
    split
    · exact nofun
    · exact endsBodies_cons (Nat.le_refl n.depth) (show "else" ≠ "\x7b" by decide)
  | elseIf condition body rest =>
    exact endsBodies_cons (Nat.le_refl n.depth) (ne_opening (isBrace_append _ rfl (by decide)))

theorem endsBodies_blockEntries (around : List BlockKind) (b : List Stmt) :
    EndsBodies (2 + around.length) (blockEntries intMain around b) := by
  cases b with
  | nil => exact nofun
  | cons s rest => exact endsBodies_cons (Nat.le_refl _) (ne_opening (isBrace_headText _ _ s))

mutual

theorem loopsNested_furtherEntries (n : Node) (s : Stmt) :
    LoopsNested (furtherEntries intMain n s) := by
  cases s with
  | branch condition body arms =>
    exact loopsNested_append (loopsNested_braced (loopsNested_blockEntries _ body))
      (loopsNested_armsEntries n arms) (depth_le_braced n _ body) (endsBodies_armsEntries n arms)
  | counted count body => exact loopsNested_braced (loopsNested_blockEntries _ body)
  | loop condition body test =>
    cases test with
    | pre => exact loopsNested_braced (loopsNested_blockEntries _ body)
    | post =>
      refine loopsNested_append (loopsNested_braced (loopsNested_blockEntries _ body))
        (loopsNested_cons loopsNested_nil nofun) (depth_le_braced n _ body) ?_
      exact endsBodies_cons (Nat.le_refl n.depth) (ne_opening (isBrace_append _ rfl (by decide)))
  | _ => exact loopsNested_nil

theorem loopsNested_armsEntries (n : Node) (a : Arms) :
    LoopsNested (armsEntries intMain n a) := by
  cases a with
  | done => exact loopsNested_nil
  | otherwise body =>
    rw [armsEntries]
    split
    · exact loopsNested_nil
    · exact loopsNested_cons (loopsNested_braced (loopsNested_blockEntries _ body)) nofun
  | elseIf condition body rest =>
    rw [armsEntries]
    refine loopsNested_append ?_ (loopsNested_armsEntries n rest) ?_ (endsBodies_armsEntries n rest)
    · exact loopsNested_cons (loopsNested_braced (loopsNested_blockEntries _ body)) nofun
    · exact List.forall_mem_cons.mpr ⟨Nat.le_refl n.depth, depth_le_braced n _ body⟩

theorem loopsNested_blockEntries (around : List BlockKind) (b : List Stmt) :
    LoopsNested (blockEntries intMain around b) := by
  cases b with
  | nil => exact loopsNested_nil
  | cons s rest =>
    rw [blockEntries, ← List.cons_append]
    refine loopsNested_append (loopsNested_cons (loopsNested_furtherEntries _ s) ?_)
      (loopsNested_blockEntries around rest) ?_ (endsBodies_blockEntries around rest)
    · -- The lines behind the header of a counted loop are those of its body, and two braces.
      rintro _ ⟨⟩ ⟨count, body, hstmt⟩
      cases hstmt
      have hbody := forall_blockEntries
        (holdsWithin_around intMain (around ++ [.counted])) body
      intro x hx n' hn'
      simp only [furtherEntries, Node.braced, List.cons_append, List.mem_cons, List.mem_append,
        List.not_mem_nil, or_false] at hx
      rcases hx with rfl | hx | rfl
      · cases hn'
      · exact hbody x hx n' hn'
      · cases hn'
    · exact List.forall_mem_cons.mpr
        ⟨Nat.le_refl _, forall_furtherEntries (holdsWithin_depth _ around) s⟩

end

theorem loopsNested_entries (options : Options) (p : Program) :
    LoopsNested (entries options p) := by
  rw [entries, List.append_assoc]
  apply loopsNested_frame
  refine loopsNested_append (loopsNested_blockEntries [] p) ?_
    (forall_blockEntries (holdsWithin_depth _ []) p) ?_
  · rw [← List.append_nil (List.map Entry.frame _)]
    exact loopsNested_frame _ loopsNested_nil
  · unfold closingReturn
    split
    · exact endsBodies_cons (Nat.le_refl 2) (show "return 0;" ≠ "\x7b" by decide)
    · exact endsBodies_cons (Nat.le_succ 1) (show "\x7d" ≠ "\x7b" by decide)

/-! ## Counters -/

/-- A loop in the block of another one has a greater number. -/
theorem counters_lt {n n' : Node} (h : n.around ++ [.counted] <+: n'.around) :
    n.counters < n'.counters := by
  have := h.sublist.count_le BlockKind.counted
  rw [counters_append, if_pos rfl] at this
  exact this

theorem content_of_counted {options : Options} {p : Program} {e : Entry} {n : Node} {count : Expr}
    {body : List Stmt} (he : e ∈ entries options p) (hn : e.started? = some n)
    (hstmt : n.stmt = .counted count body) :
    e.line.content = forText (counterName n.counters) (exprText count) := by
  rw [(placed_entries options p e he).first n hn, hstmt]
  rfl

/-- Every counted loop of a program has a header with a counter whose number is one more than that
of the counted loops around it. A header in the body of another one has another counter. Loops in
blocks of the same kinds have the same counter, whatever stands beside them and inside them. -/
theorem counters_count_loops (options : Options) (p : Program) :
    generate options p = Layout.render options.indent ((entries options p).map Entry.line) ∧
    (entries options p).filterMap Entry.started? = nodes p ∧
    (∀ e ∈ entries options p, ∀ n count body, e.started? = some n →
      n.stmt = .counted count body →
      e.line.content =
        forText ("_i" ++ Decimal.naturalText (1 + n.around.count .counted)) (exprText count)) ∧
    (∀ i j outer inner n n', InBody ((entries options p).map Entry.line) i j →
      (entries options p)[i]? = some outer → (entries options p)[j]? = some inner →
      outer.started? = some n → inner.started? = some n' → n.IsCounted → n'.IsCounted →
      counterName n.counters ≠ counterName n'.counters) ∧
    ∀ options' p', ∀ e ∈ entries options p, ∀ e' ∈ entries options' p',
      ∀ n n' count count' body body', e.started? = some n → e'.started? = some n' →
      n.stmt = .counted count body → n'.stmt = .counted count' body' → n.around = n'.around →
      ∃ counter, e.line.content = forText counter (exprText count) ∧
        e'.line.content = forText counter (exprText count') := by
  refine ⟨by rw [map_line_entries, generate_eq], filterMap_started?_entries options p, ?_, ?_, ?_⟩
  · intro e he n count body hn hstmt
    rw [content_of_counted he hn hstmt, counterName, Node.counters, Nat.add_comm]
  · intro i j outer inner n n' hbody houter hinner hn hn' hcounted _ hsame
    have hprefix := loopsNested_entries options p i j outer inner n n' hbody houter hinner hn
      hcounted hn'
    have := counters_lt hprefix
    have := counterName_injective hsame
    omega
  · intro options' p' e he e' he' n n' count count' body body' hn hn' hstmt hstmt' haround
    refine ⟨counterName n.counters, content_of_counted he hn hstmt, ?_⟩
    rw [content_of_counted he' hn' hstmt', Node.counters, Node.counters, haround]

/-- A loop behind another one, with a third loop inside it that stands in an arm of a conditional in
a loop with a condition. -/
def loopsInArm : Program :=
  [.counted name [],
    .counted name [.loop name [.branch name [] (.otherwise [.counted name []])] .post]]
where
  name : Expr := .ident ⟨"x", .empty 0⟩ (.empty 0)

theorem counters_count_loops_arm :
    InBody (lines {} loopsInArm) 11 20 ∧
      (lines {} loopsInArm)[11]? = some ⟨2, "for (int _i1 = 0; _i1 < x; _i1++)"⟩ ∧
      (lines {} loopsInArm)[20]? = some ⟨5, "for (int _i2 = 0; _i2 < x; _i2++)"⟩ ∧
      ∃ outer inner n n', (entries {} loopsInArm)[11]? = some outer ∧
        (entries {} loopsInArm)[20]? = some inner ∧ outer.started? = some n ∧
        inner.started? = some n' ∧ counterName n.counters ≠ counterName n'.counters := by
  have hbody : InBody (lines {} loopsInArm) 11 20 := by decide +kernel
  have hbody' : InBody ((entries {} loopsInArm).map Entry.line) 11 20 := by
    rwa [map_line_entries]
  obtain ⟨-, -, -, hdiffer, -⟩ := counters_count_loops {} loopsInArm
  refine ⟨hbody, by decide +kernel, by decide +kernel, _, _, _, _, rfl, rfl, rfl, rfl, ?_⟩
  exact hdiffer 11 20 _ _ _ _ hbody' rfl rfl rfl rfl ⟨_, _, rfl⟩ ⟨_, _, rfl⟩

end Bukvar.Listing
