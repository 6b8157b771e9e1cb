import Bukvar.Proofs.Listing.LoopCondition
import Bukvar.Proofs.Parsing.Account

/-!
# The counters of loops and the names of a program

The counter of a counted loop is named after the number of counted loops around it. The counters of
loops inside each other therefore differ, but no attention is paid to the names of the program, and a
name of a source can be spelled like a counter. Such a name is all that a counter can collide with:
where a source has no name token with the spelling of a counter, nothing that is visible in the loop
is called like it.

A `Site` is a counted loop with what is visible in it.

* `counterName_injective`: counters of different depths.
* `visible_block`: what is visible in a loop comes from the program.
* `counters_hygienic`: loops and the name tokens of a source.
* `counters_captured`: a source that uses the name of a counter.
-/

namespace Bukvar

open Token (Buffer Kind)

/-! ## Names of programs -/

/-- The names that are declared at the places. -/
def declaredNames (os : List Occurrence) : List String :=
  os.filterMap fun
    | .declares _ name => some name.name
    | .reads _ _ => none

/-- The names that a block declares, reads or uses, also inside its statements. -/
def blockNames (block : List Stmt) : List String :=
  (blockExprs block).flatMap Expr.names ++ (blockOccurrences block).map fun o => o.ident.name

theorem mem_declaredNames {os : List Occurrence} {name : String} (h : name ∈ declaredNames os) :
    name ∈ os.map fun o => o.ident.name := by
  obtain ⟨o, ho, hname⟩ := List.mem_filterMap.mp h
  cases o with
  | declares type id =>
    cases hname
    exact List.mem_map.mpr ⟨_, ho, rfl⟩
  | reads target type => cases hname

theorem Expr.Legible.of_mem_names {named : String → Prop} {e : Expr} (h : e.Legible named)
    {name : String} (hname : name ∈ e.names) : named name := by
  induction e with
  | binary op lhs rhs span ihl ihr =>
    rcases List.mem_append.mp hname with hname | hname
    · exact ihl h.1 hname
    · exact ihr h.2.1 hname
  | ident id span => exact List.mem_singleton.mp hname ▸ h
  | _ => cases hname

namespace Listing

/-! ## Counters of different depths -/

theorem counterName_injective {i j : Nat} (h : counterName i = counterName j) : i = j := by
  have hlists := congrArg String.toList h
  rw [toList_counterName, toList_counterName] at hlists
  have hdigits : Decimal.digits (i + 1) = Decimal.digits (j + 1) := by
    simpa using hlists
  have hvalue := congrArg Decimal.ofDigits hdigits
  rw [Decimal.ofDigits_digits, Decimal.ofDigits_digits] at hvalue
  omega

/-! ## What is visible in a loop -/

/-- A counted loop where it stands. -/
structure Site where
  loop : CountedLoop
  /-- The names that earlier statements of the blocks around declare. -/
  known : List String
  body : List Stmt

/-- The names that the loop can see: those declared around it before, and those of its count and its
body. -/
def Site.visible (site : Site) : List String :=
  site.known ++ (site.loop.count.names ++ blockNames site.body)

mutual

/-- The counted loops of a statement. -/
def stmtSites (enclosing : Nat) (known : List String) : Stmt → List Site
  | .branch _ body arms => blockSites enclosing known body ++ armsSites enclosing known arms
  | .counted count body =>
    ⟨⟨enclosing, count⟩, known, body⟩ :: blockSites (enclosing + 1) known body
  | .loop _ body _ => blockSites enclosing known body
  | .declare .. | .assign _ | .write _ | .read .. | .giveBack _ => []

/-- The counted loops of the arms of a conditional. -/
def armsSites (enclosing : Nat) (known : List String) : Arms → List Site
  | .done => []
  | .otherwise body => blockSites enclosing known body
  | .elseIf _ body rest => blockSites enclosing known body ++ armsSites enclosing known rest

/-- The counted loops of a block. -/
def blockSites (enclosing : Nat) (known : List String) : List Stmt → List Site
  | [] => []
  | stmt :: rest =>
    stmtSites enclosing known stmt ++
      blockSites enclosing (known ++ declaredNames stmt.occurrences) rest

end

mutual

theorem map_loop_stmtSites (n : Nat) (known : List String) (s : Stmt) :
    (stmtSites n known s).map Site.loop = stmtLoops n s := by
  cases s with
  | branch condition body arms =>
    rw [stmtSites, stmtLoops, List.map_append, map_loop_blockSites, map_loop_armsSites]
  | counted count body => rw [stmtSites, stmtLoops, List.map_cons, map_loop_blockSites]
  | loop condition body test => rw [stmtSites, stmtLoops, map_loop_blockSites]
  | _ => rfl

theorem map_loop_armsSites (n : Nat) (known : List String) (a : Arms) :
    (armsSites n known a).map Site.loop = armsLoops n a := by
  cases a with
  | done => rfl
  | otherwise body => rw [armsSites, armsLoops, map_loop_blockSites]
  | elseIf condition body rest =>
    rw [armsSites, armsLoops, List.map_append, map_loop_blockSites, map_loop_armsSites]

/-- Every counted loop of a program has its site. -/
theorem map_loop_blockSites (n : Nat) (known : List String) (b : List Stmt) :
    (blockSites n known b).map Site.loop = blockLoops n b := by
  cases b with
  | nil => rfl
  | cons s rest =>
    rw [blockSites, blockLoops, List.map_append, map_loop_stmtSites, map_loop_blockSites]

end

/-- The property holds of the names in the expressions and at the places. -/
structure NamesHave (P : String → Prop) (es : List Expr) (os : List Occurrence) : Prop where
  exprs : ∀ e ∈ es, ∀ name ∈ e.names, P name
  occurrences : ∀ o ∈ os, P o.ident.name

variable {P : String → Prop} {site : Site}

theorem NamesHave.mono {es us : List Expr} {os vs : List Occurrence} (h : NamesHave P es os)
    (hes : us ⊆ es) (hos : vs ⊆ os) : NamesHave P us vs :=
  ⟨fun e he => h.exprs e (hes he), fun o ho => h.occurrences o (hos ho)⟩

theorem NamesHave.block {b : List Stmt} (h : NamesHave P (blockExprs b) (blockOccurrences b)) :
    ∀ name ∈ blockNames b, P name := by
  intro name hname
  rcases List.mem_append.mp hname with hname | hname
  · obtain ⟨e, he, hname⟩ := List.mem_flatMap.mp hname
    exact h.exprs e he name hname
  · obtain ⟨o, ho, rfl⟩ := List.mem_map.mp hname
    exact h.occurrences o ho

mutual

theorem visible_stmt {n : Nat} {known : List String} {s : Stmt} (hknown : ∀ name ∈ known, P name)
    (h : NamesHave P s.exprs s.occurrences) (hsite : site ∈ stmtSites n known s) :
    ∀ name ∈ site.visible, P name := by
  cases s with
  | branch condition body arms =>
    rcases List.mem_append.mp hsite with hsite | hsite
    · exact visible_block hknown
        (h.mono (by simp [Stmt.exprs]) (by simp [Stmt.occurrences])) hsite
    · exact visible_arms hknown
        (h.mono (by simp [Stmt.exprs]) (by simp [Stmt.occurrences])) hsite
  | counted count body =>
    have hbody : NamesHave P (blockExprs body) (blockOccurrences body) :=
      h.mono (by simp [Stmt.exprs]) (by simp [Stmt.occurrences])
    rcases List.mem_cons.mp hsite with rfl | hsite
    · intro name hname
      rcases List.mem_append.mp hname with hname | hname
      · exact hknown name hname
      · rcases List.mem_append.mp hname with hname | hname
        · exact h.exprs count (by simp [Stmt.exprs]) name hname
        · exact hbody.block name hname
    · exact visible_block hknown hbody hsite
  | loop condition body test =>
    exact visible_block hknown (h.mono (by simp [Stmt.exprs]) (by simp [Stmt.occurrences])) hsite
  | _ => cases hsite

theorem visible_arms {n : Nat} {known : List String} {a : Arms} (hknown : ∀ name ∈ known, P name)
    (h : NamesHave P a.exprs a.occurrences) (hsite : site ∈ armsSites n known a) :
    ∀ name ∈ site.visible, P name := by
  cases a with
  | done => cases hsite
  | otherwise body => exact visible_block hknown h hsite
  | elseIf condition body rest =>
    rcases List.mem_append.mp hsite with hsite | hsite
    · exact visible_block hknown
        (h.mono (by simp [Arms.exprs]) (by simp [Arms.occurrences])) hsite
    · exact visible_arms hknown
        (h.mono (by simp [Arms.exprs]) (by simp [Arms.occurrences])) hsite

/-- What is visible in a loop was known before or occurs in the block around the loop. -/
theorem visible_block {n : Nat} {known : List String} {b : List Stmt}
    (hknown : ∀ name ∈ known, P name) (h : NamesHave P (blockExprs b) (blockOccurrences b))
    (hsite : site ∈ blockSites n known b) : ∀ name ∈ site.visible, P name := by
  cases b with
  | nil => cases hsite
  | cons s rest =>
    have hstmt : NamesHave P s.exprs s.occurrences :=
      h.mono (by simp [blockExprs]) (by simp [blockOccurrences])
    rcases List.mem_append.mp hsite with hsite | hsite
    · exact visible_stmt hknown hstmt hsite
    · refine visible_block ?_ (h.mono (by simp [blockExprs]) (by simp [blockOccurrences])) hsite
      intro name hname
      rcases List.mem_append.mp hname with hname | hname
      · exact hknown name hname
      · obtain ⟨o, ho, rfl⟩ := List.mem_map.mp (mem_declaredNames hname)
        exact hstmt.occurrences o ho

end

/-! ## Loops of sources -/

/-- The names of a program are texts of name tokens. -/
theorem namesHave_of_parse {c : Compiler} {source : String} {p : Program}
    (h : (c.parse source).outcome = .done p) :
    ∃ buffer, Buffer.ofSource source = .ok buffer ∧
      NamesHave (fun name => ∃ t ∈ buffer.tokens, t.kind = .name ∧ t.text = name) (blockExprs p)
        (blockOccurrences p) := by
  obtain ⟨buffer, hbuffer, hread⟩ := Compiler.exists_buffer_of_parse h
  obtain ⟨ts, -, hsame, hlegible⟩ := Compiler.legible_of_parse h
  obtain rfl : Buffer.ofTokens ts source.utf8ByteSize = buffer :=
    Except.ok.inj (hsame.symm.trans hbuffer)
  refine ⟨_, hbuffer, ?_, ?_⟩
  · have hblock := hlegible (fun name => ∃ t ∈ (Buffer.ofTokens ts source.utf8ByteSize).tokens,
      t.kind = .name ∧ t.text = name) fun t ht hkind => ⟨t, by simp [Buffer.ofTokens, ht], hkind, rfl⟩
    intro e he name hname
    exact (legible_of_mem_blockExprs hblock he).of_mem_names hname
  · obtain ⟨m, n, htokens, -, haccounts⟩ := Parsing.accounts_of_parse hread
    intro o ho
    obtain ⟨t, ht, hkind, hident⟩ := haccounts.idents o ho
    exact ⟨t, htokens ▸ ht, hkind, by rw [hident]⟩

/-- Every counted loop of a source that is translated. Its header is in the listing, and its counter
differs from those of the loops around it. If no name token of the source is spelled like the
counter, nothing is called like it that is declared before the loop in the blocks around, or that
occurs in the loop's count or body. -/
theorem counters_hygienic {c : Compiler} {source code : String}
    (hcompile : (c.compile source).outcome = .done code) :
    ∃ p buffer ls, (c.parse source).outcome = .done p ∧ Buffer.ofSource source = .ok buffer ∧
      code = Layout.render c.options.indent ls ∧
      (blockSites 0 [] p).map Site.loop = blockLoops 0 p ∧
      ∀ site ∈ blockSites 0 [] p,
        site.loop.header ∈ contents ls ∧
        (∀ outer < site.loop.enclosing, counterName outer ≠ site.loop.counter) ∧
        ((∀ t ∈ buffer.tokens, t.kind = .name → t.text ≠ site.loop.counter) →
          site.loop.counter ∉ site.visible) := by
  obtain ⟨p, hparse, rfl⟩ := Outcome.exists_of_map hcompile
  obtain ⟨buffer, hbuffer, hnames⟩ := namesHave_of_parse hparse
  refine ⟨p, buffer, lines c.options p, hparse, hbuffer, generate_eq .., map_loop_blockSites 0 [] p,
    ?_⟩
  intro site hsite
  refine ⟨?_, ?_, ?_⟩
  · apply header_mem_lines
    rw [← map_loop_blockSites 0 [] p]
    exact List.mem_map_of_mem hsite
  · intro outer houter hsame
    have := counterName_injective hsame
    omega
  · intro hfree hvisible
    obtain ⟨t, ht, hkind, htext⟩ := visible_block nofun hnames hsite _ hvisible
    exact hfree t ht hkind htext

/-- A loop inside another one. Its source has a name that differs from the counter by one zero. -/
theorem counters_hygienic_nested :
    ∃ p site, ((Compiler.fresh {}).parse
        "начало цел _i02; нц 3 раз нц _i02 раз написать _i02; кц кц конец").outcome = .done p ∧
      site ∈ blockSites 0 [] p ∧ site.loop.counter = "_i2" ∧ "_i02" ∈ site.visible ∧
      counterName 0 ≠ "_i2" ∧ "_i2" ∉ site.visible := by
  have hsites : ((Compiler.fresh {}).parse
      "начало цел _i02; нц 3 раз нц _i02 раз написать _i02; кц кц конец").outcome.map (fun p =>
        (blockSites 0 [] p).any fun site => site.loop.enclosing = 1 &&
          site.loop.counter = "_i2" && site.visible.contains "_i02") = .done true := by
    decide +kernel
  have htokens : (Buffer.ofSource
      "начало цел _i02; нц 3 раз нц _i02 раз написать _i02; кц кц конец").toOption.map (fun buffer =>
        decide (∀ t ∈ buffer.tokens, t.kind = .name → t.text ≠ "_i2")) = some true := by
    decide +kernel
  obtain ⟨p, hparse, hp⟩ := Outcome.exists_of_map hsites
  obtain ⟨site, hsite, hfound⟩ := List.any_eq_true.mp hp
  simp only [Bool.and_eq_true, decide_eq_true_eq, List.contains_iff_mem] at hfound
  obtain ⟨⟨henclosing, hcounter⟩, hname⟩ := hfound
  have hcompile : ((Compiler.fresh {}).compile
      "начало цел _i02; нц 3 раз нц _i02 раз написать _i02; кц кц конец").outcome =
        .done (generate {} p) :=
    Compiler.outcome_compile_of_parse hparse
  obtain ⟨p', buffer, ls, hparse', hbuffer, -, -, hall⟩ := counters_hygienic hcompile
  obtain rfl : p = p' := Outcome.done.inj (hparse.symm.trans hparse')
  obtain ⟨-, houter, hfree⟩ := hall site hsite
  rw [hbuffer] at htokens
  rw [hcounter] at houter hfree
  exact ⟨p, site, hparse, hsite, hcounter, hname, houter 0 (by omega),
    hfree (of_decide_eq_true (Option.some.inj htokens))⟩

/-- A variable that is called like the counter of a loop is declared before the loop and assigned
inside it. -/
theorem counters_captured :
    ∃ p site, ((Compiler.fresh {}).parse
        "начало цел _i1; нц 3 раз _i1 = 5; кц конец").outcome = .done p ∧
      site ∈ blockSites 0 [] p ∧ site.loop.counter = "_i1" ∧ "_i1" ∈ site.known ∧
      "_i1" ∈ blockNames site.body ∧
      ((Compiler.fresh {}).compile "начало цел _i1; нц 3 раз _i1 = 5; кц конец").outcome =
        .done (Layout.render "    " (lines {} p)) ∧
      "int _i1;" ∈ contents (lines {} p) ∧ site.loop.header ∈ contents (lines {} p) := by
  have hsites : ((Compiler.fresh {}).parse
      "начало цел _i1; нц 3 раз _i1 = 5; кц конец").outcome.map (fun p =>
        (contents (lines {} p)).contains "int _i1;" && (blockSites 0 [] p).any fun site =>
          site.loop.counter = "_i1" && site.known.contains "_i1" &&
            (blockNames site.body).contains "_i1" &&
            (contents (lines {} p)).contains site.loop.header) = .done true := by
    decide +kernel
  obtain ⟨p, hparse, hp⟩ := Outcome.exists_of_map hsites
  rw [Bool.and_eq_true, List.any_eq_true] at hp
  obtain ⟨hdeclared, site, hsite, hfound⟩ := hp
  simp only [Bool.and_eq_true, decide_eq_true_eq, List.contains_iff_mem] at hdeclared hfound
  obtain ⟨⟨⟨hcounter, hknown⟩, hbody⟩, hheader⟩ := hfound
  refine ⟨p, site, hparse, hsite, hcounter, hknown, hbody, ?_, hdeclared, hheader⟩
  rw [Compiler.outcome_compile_of_parse hparse, generate_eq]
  rfl

end Listing

end Bukvar
