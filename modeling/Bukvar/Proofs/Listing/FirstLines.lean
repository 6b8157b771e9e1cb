import Bukvar.Proofs.Listing.Plain

/-!
# The first lines of statements

Every word can be a name of the program, the words that a listing itself is written with among
them. Still the first line of a statement shows what it starts: where the second unit is the sign
of an assignment, the line stores a value, and where it is not, the first unit is no name but one
of a few fixed words.

* `formOf?_headText`: the kind of the statement that a line starts.
* `declareText_unique`, `readText_unique`, `assign_ne_read`, `returnText_unique`: what lines of one
  kind show.
-/

namespace Bukvar.Listing

open Layout (Line)
open Token (IsAtom isAtom_of_isWord units units_atom units_blank units_standalone separated_cons)

/-! ## First lines -/

/-- The text of the first line of a statement. -/
def headText (intMain : Bool) (counters : Nat) : Stmt → String
  | .declare type name init => declareText type name.name init
  | .assign expr => exprText expr ++ ";"
  | .write expr => "Console.WriteLine(" ++ exprText expr ++ ");"
  | .read target type => readText target.name type
  | .giveBack value => returnText intMain value
  | .branch condition _ _ => "if (" ++ exprText condition ++ ")"
  | .counted count _ => forText (counterName counters) (exprText count)
  | .loop condition _ .pre => "while (" ++ exprText condition ++ ")"
  | .loop _ _ .post => "do"

/-- The lines of a statement behind its first one. -/
def tailLines (intMain : Bool) (depth counters : Nat) : Stmt → List Line
  | .branch _ body arms =>
    braced depth (blockLines intMain (depth + 1) counters body) ++
      armsLines intMain depth counters arms
  | .counted _ body => braced depth (blockLines intMain (depth + 1) (counters + 1) body)
  | .loop _ body .pre => braced depth (blockLines intMain (depth + 1) counters body)
  | .loop condition body .post =>
    braced depth (blockLines intMain (depth + 1) counters body) ++
      [⟨depth, "while (" ++ exprText condition ++ ");"⟩]
  | _ => []

theorem stmtLines_eq (intMain : Bool) (depth counters : Nat) (s : Stmt) :
    stmtLines intMain depth counters s =
      ⟨depth, headText intMain counters s⟩ :: tailLines intMain depth counters s := by
  cases s with
  | loop condition body test => cases test <;> rw [stmtLines] <;> rfl
  | _ =>
    rw [stmtLines]
    rfl

/-! ## Units of first lines -/

theorem units_spaced {u : List Char} (hu : IsAtom u) (rest : List Char) :
    units (u ++ ' ' :: rest) = u :: units rest := by
  rw [units_atom hu (separated_cons (by decide) _), units_blank _ (by decide)]

/-- A word and a parenthesis behind it. -/
theorem units_call {u : List Char} (hu : IsAtom u) (rest : List Char) :
    units (u ++ '(' :: rest) = u :: ['('] :: units rest := by
  rw [units_atom hu (separated_cons (by decide) _), units_standalone (by decide)]

theorem units_spacedCall {u : List Char} (hu : IsAtom u) (rest : List Char) :
    units (u ++ ' ' :: '(' :: rest) = u :: ['('] :: units rest := by
  rw [units_spaced hu, units_standalone (by decide)]

theorem units_closed {e : Expr} (he : e.Legible Plain) :
    units (exprText e ++ ";").toList = exprUnits e ++ [[';']] := by
  have htext : (exprText e ++ ";").toList = (exprText e).toList ++ [';'] := by simp
  rw [htext, units_plain he (separated_cons (by decide) _), units_standalone (by decide),
    Token.units_nil]

theorem isAtom_typeName (type : VarType) : IsAtom (typeName type).toList := by
  cases type <;> exact isAtom_of_isWord (by decide)

theorem units_declare {name : String} (hname : Plain name) (type : VarType) :
    units (declareText type name none).toList = [(typeName type).toList, name.toList, [';']] := by
  have htext : (declareText type name none).toList =
      (typeName type).toList ++ ' ' :: (name.toList ++ [';']) := by
    simp [declareText]
  rw [htext, units_spaced (isAtom_typeName type), units_atom hname.1 (separated_cons (by decide) _),
    units_standalone (by decide), Token.units_nil]

theorem units_declareInit {name : String} {init : Expr} (hname : Plain name)
    (he : init.Legible Plain) (type : VarType) :
    units (declareText type name (some init)).toList =
      (typeName type).toList :: name.toList :: ['='] :: (exprUnits init ++ [[';']]) := by
  have htext : (declareText type name (some init)).toList =
      (typeName type).toList ++ ' ' :: (name.toList ++ ' ' ::
        (Operator.assign.symbol.toList ++ ' ' :: (exprText init ++ ";").toList)) := by
    simp [declareText, Operator.symbol]
  rw [htext, units_spaced (isAtom_typeName type), units_atom hname.1 (separated_cons (by decide) _),
    units_sign, units_closed he]
  rfl

/-- What a statement that reads a value calls first. -/
def readerName : VarType → String
  | .integer => "int.Parse"
  | .double => "double.Parse"
  | .string => "Console.ReadLine"

theorem isAtom_readerName (type : VarType) : IsAtom (readerName type).toList := by
  cases type <;> exact isAtom_of_isWord (by decide)

theorem exists_toList_readText (name : String) (type : VarType) :
    ∃ rest, (readText name type).toList = name.toList ++ ' ' ::
      (Operator.assign.symbol.toList ++ ' ' :: ((readerName type).toList ++ '(' :: rest)) := by
  cases type with
  | integer =>
    refine ⟨"Console.ReadLine()!);".toList, ?_⟩
    simp [readText, readerName, Operator.symbol]
  | double =>
    refine ⟨"Console.ReadLine()!, ".toList ++
      "System.Globalization.CultureInfo.InvariantCulture);".toList, ?_⟩
    rw [readText, String.toList_append, String.toList_append]
    generalize "System.Globalization.CultureInfo.InvariantCulture);".toList = culture
    simp [readerName, Operator.symbol]
  | string =>
    refine ⟨") ?? string.Empty;".toList, ?_⟩
    simp [readText, readerName, Operator.symbol]

theorem exists_units_read {name : String} (hname : Plain name) (type : VarType) :
    ∃ us, units (readText name type).toList =
      name.toList :: ['='] :: (readerName type).toList :: ['('] :: us := by
  obtain ⟨rest, htext⟩ := exists_toList_readText name type
  refine ⟨units rest, ?_⟩
  rw [htext, units_atom hname.1 (separated_cons (by decide) _), units_sign,
    units_call (isAtom_readerName type)]
  rfl

theorem units_return {e : Expr} (he : e.Legible Plain) (intMain : Bool) :
    units (returnText intMain (some e)).toList = "return".toList :: (exprUnits e ++ [[';']]) := by
  have htext : (returnText intMain (some e)).toList =
      "return".toList ++ ' ' :: (exprText e ++ ";").toList := by
    simp [returnText]
  rw [htext, units_spaced (isAtom_of_isWord (by decide)), units_closed he]

/-- An assignment as a statement starts with a name and the sign behind it. -/
theorem exists_units_assign {e : Expr} (hassign : isAssignment e = true) (he : e.Legible Plain) :
    ∃ name rhs, rhs.Legible Plain ∧ exprUnits e = name :: ['='] :: exprUnits rhs := by
  cases e with
  | binary op lhs rhs span =>
    obtain rfl : op = .assign := by
      cases op with
      | assign => rfl
      | _ => cases hassign
    have hident := he.2.2 rfl
    cases lhs with
    | ident id idSpan => exact ⟨id.name.toList, rhs, he.2.1, rfl⟩
    | _ => cases hident
  | _ => cases hassign

/-! ## Forms of lines -/

/-- What a line starts. -/
inductive Form where
  | store
  | declare (type : VarType)
  | write
  | giveBack
  | branch
  | counted
  | loop (test : LoopTest)
  | arm
deriving DecidableEq

/-- The words at the front of lines that are not names. -/
def leadingWords : List (String × Form) :=
  [("int", .declare .integer), ("double", .declare .double), ("string", .declare .string),
    ("Console.WriteLine", .write), ("return", .giveBack), ("if", .branch), ("for", .counted),
    ("while", .loop .pre), ("do", .loop .post), ("else", .arm)]

/-- What a line with the given units starts. A word is a name where the sign of an assignment
follows it. -/
def formOf? (us : List (List Char)) : Option Form :=
  if us[1]? = some ['='] then some .store
  else us.head?.bind fun u => leadingWords.lookup (String.ofList u)

/-- What the first line of a statement starts. -/
def stmtForm : Stmt → Form
  | .declare type _ _ => .declare type
  | .assign _ => .store
  | .write _ => .write
  | .read _ _ => .store
  | .giveBack _ => .giveBack
  | .branch _ _ _ => .branch
  | .counted _ _ => .counted
  | .loop _ _ test => .loop test

theorem formOf?_store (u : List Char) (us : List (List Char)) :
    formOf? (u :: ['='] :: us) = some .store :=
  if_pos rfl

theorem formOf?_word {word : String} {second : List Char} (us : List (List Char))
    (h : second ≠ ['=']) :
    formOf? (word.toList :: second :: us) = leadingWords.lookup word := by
  have hne : ¬ (word.toList :: second :: us)[1]? = some ['='] := by simpa using h
  rw [formOf?, if_neg hne]
  simp

theorem leadingWords_typeName (type : VarType) :
    leadingWords.lookup (typeName type) = some (.declare type) := by
  cases type <;> rfl

theorem ne_sign_of_plain {name : String} (h : Plain name) : name.toList ≠ ['='] := by
  intro hname
  exact h.2 .assign (String.toList_inj.mp hname)

/-- A fixed word with a parenthesis behind it, and possibly a blank in between. -/
theorem formOf?_call {front word : String} {more : List Char} (hword : IsAtom word.toList)
    (hfront : front.toList = word.toList ++ '(' :: more ∨
      front.toList = word.toList ++ ' ' :: '(' :: more) (back : String) :
    formOf? (units (front ++ back).toList) = leadingWords.lookup word := by
  rw [String.toList_append]
  rcases hfront with hfront | hfront
  · rw [hfront, List.append_assoc, List.cons_append, units_call hword, formOf?_word _ (by decide)]
  · rw [hfront, List.append_assoc, List.cons_append, List.cons_append, units_spacedCall hword,
      formOf?_word _ (by decide)]

theorem formOf?_return {e : Expr} (he : e.Legible Plain) (intMain : Bool) :
    formOf? (units (returnText intMain (some e)).toList) = some .giveBack := by
  obtain ⟨u, us, hunits, hne⟩ := exists_head_exprUnits he
  rw [units_return he, hunits, List.cons_append, formOf?_word _ hne]
  rfl

/-- The first line of a statement shows what it starts. -/
theorem formOf?_headText {s : Stmt} (hs : s.Legible Plain) (intMain : Bool) (counters : Nat) :
    formOf? (units (headText intMain counters s).toList) = some (stmtForm s) := by
  cases s with
  | declare type name init =>
    have hword := fun us => @formOf?_word (typeName type) _ us (ne_sign_of_plain hs.1)
    cases init with
    | none =>
      change formOf? (units (declareText type name.name none).toList) = _
      rw [units_declare hs.1, hword, leadingWords_typeName]
      rfl
    | some value =>
      change formOf? (units (declareText type name.name (some value)).toList) = _
      rw [units_declareInit hs.1 (hs.2 value rfl), hword, leadingWords_typeName]
      rfl
  | assign expr =>
    obtain ⟨name, rhs, -, hunits⟩ := exists_units_assign hs.1 hs.2
    change formOf? (units (exprText expr ++ ";").toList) = _
    rw [units_closed hs.2, hunits]
    exact formOf?_store _ _
  | write expr =>
    change formOf? (units ("Console.WriteLine(" ++ exprText expr ++ ");").toList) = _
    rw [String.append_assoc]
    exact @formOf?_call _ "Console.WriteLine" [] (isAtom_of_isWord (by decide))
      (.inl (by decide)) _
  | read target type =>
    obtain ⟨us, hunits⟩ := exists_units_read hs type
    change formOf? (units (readText target.name type).toList) = _
    rw [hunits]
    exact formOf?_store _ _
  | giveBack value =>
    cases value with
    | none =>
      change formOf? (units (returnText intMain none).toList) = some .giveBack
      cases intMain <;> decide +kernel
    | some value => exact formOf?_return (hs value rfl) intMain
  | branch condition body arms =>
    change formOf? (units ("if (" ++ exprText condition ++ ")").toList) = _
    rw [String.append_assoc]
    exact @formOf?_call _ "if" [] (isAtom_of_isWord (by decide)) (.inr (by decide)) _
  | counted count body =>
    change formOf? (units (forText (counterName counters) (exprText count)).toList) = _
    unfold forText
    simp only [String.append_assoc]
    exact @formOf?_call _ "for" "int ".toList (isAtom_of_isWord (by decide)) (.inr (by decide)) _
  | loop condition body test =>
    cases test with
    | pre =>
      change formOf? (units ("while (" ++ exprText condition ++ ")").toList) = _
      rw [String.append_assoc]
      exact @formOf?_call _ "while" [] (isAtom_of_isWord (by decide)) (.inr (by decide)) _
    | post =>
      change formOf? (units "do".toList) = some (.loop .post)
      decide +kernel

/-! ## Statements with the same first line -/

theorem declareText_unique {type : VarType} {name name' : String} {init init' : Option Expr}
    (hname : Plain name) (hname' : Plain name') (hinit : ∀ e ∈ init, e.Legible Plain)
    (hinit' : ∀ e ∈ init', e.Legible Plain)
    (h : declareText type name init = declareText type name' init') :
    name = name' ∧ init.map written = init'.map written := by
  have hunits := congrArg (fun text => units text.toList) h
  cases init with
  | none =>
    cases init' with
    | none =>
      rw [units_declare hname, units_declare hname'] at hunits
      simp only [List.cons.injEq, String.toList_inj, true_and, and_true] at hunits
      exact ⟨hunits, rfl⟩
    | some e' =>
      rw [units_declare hname, units_declareInit hname' (hinit' e' rfl)] at hunits
      simp at hunits
  | some e =>
    cases init' with
    | none =>
      rw [units_declareInit hname (hinit e rfl), units_declare hname'] at hunits
      simp at hunits
    | some e' =>
      rw [units_declareInit hname (hinit e rfl), units_declareInit hname' (hinit' e' rfl)] at hunits
      simp only [List.cons.injEq, String.toList_inj, true_and] at hunits
      obtain ⟨rfl, -⟩ := hunits
      have htext : exprText e = exprText e' := by simpa [declareText] using h
      exact ⟨rfl, congrArg some (written_unique (hinit e rfl) (hinit' e' rfl) htext)⟩

theorem readerName_injective {type type' : VarType} (h : readerName type = readerName type') :
    type = type' := by
  revert h
  cases type <;> cases type' <;> decide

theorem readText_unique {name name' : String} {type type' : VarType} (hname : Plain name)
    (hname' : Plain name') (h : readText name type = readText name' type') :
    name = name' ∧ type = type' := by
  obtain ⟨us, hus⟩ := exists_units_read hname type
  obtain ⟨us', hus'⟩ := exists_units_read hname' type'
  rw [h, hus'] at hus
  simp only [List.cons.injEq, String.toList_inj, true_and] at hus
  exact ⟨hus.1.symm, readerName_injective hus.2.1.symm⟩

theorem plainSymbol_readerName (type : VarType) :
    plainSymbol (readerName type).toList = ⟨.name, readerName type⟩ := by
  cases type <;> decide

/-- A value that is read is no expression, since a name is followed by a parenthesis there. -/
theorem assign_ne_read {e : Expr} (hassign : isAssignment e = true) (he : e.Legible Plain)
    {name : String} (hname : Plain name) (type : VarType) :
    exprText e ++ ";" ≠ readText name type := by
  intro h
  obtain ⟨us, hus⟩ := exists_units_read hname type
  obtain ⟨target, rhs, hrhs, hunits⟩ := exists_units_assign hassign he
  rw [← h, units_closed he, hunits] at hus
  obtain ⟨u, rest, hhead, -⟩ := exists_head_exprUnits hrhs
  simp only [List.cons_append, List.cons.injEq, true_and, hhead] at hus
  obtain ⟨-, rfl, hrest⟩ := hus
  cases rest with
  | nil => simp at hrest
  | cons v rest =>
    simp only [List.cons_append, List.cons.injEq] at hrest
    obtain ⟨rfl, -⟩ := hrest
    exact exprUnits_ne_call hrhs (plainSymbol_readerName type) rest hhead

theorem legible_textLeaf_zero : (textLeaf "0").Legible Plain := by
  refine ⟨isAtom_of_isWord (by decide), ?_⟩
  intro op
  cases op <;> decide

theorem returnText_unique {intMain : Bool} {value value' : Option Expr}
    (hvalue : ∀ e ∈ value, e.Legible Plain) (hvalue' : ∀ e ∈ value', e.Legible Plain)
    (h : returnText intMain value = returnText intMain value') :
    normalStmt intMain (.giveBack value) = normalStmt intMain (.giveBack value') := by
  have hzero : ∀ e : Expr, e.Legible Plain → returnText intMain none = returnText intMain (some e) →
      normalStmt intMain (.giveBack none) = normalStmt intMain (.giveBack (some e)) := by
    intro e he htext
    cases intMain with
    | false =>
      have := congrArg (fun text => text.toList[6]?) htext
      simp [returnText] at this
    | true =>
      have hsame : returnText true (some (textLeaf "0")) = returnText true (some e) := by
        rw [← htext]
        decide
      have hexpr : exprText (textLeaf "0") = exprText e := by simpa [returnText] using hsame
      have := written_unique legible_textLeaf_zero he hexpr
      simp only [normalStmt, returnZero, ← this]
      rfl
  cases value with
  | none =>
    cases value' with
    | none => rfl
    | some e' => exact hzero e' (hvalue' e' rfl) h
  | some e =>
    cases value' with
    | none => exact (hzero e (hvalue e rfl) h.symm).symm
    | some e' =>
      have htext : exprText e = exprText e' := by simpa [returnText] using h
      simp only [normalStmt, written_unique (hvalue e rfl) (hvalue' e' rfl) htext]

end Bukvar.Listing
