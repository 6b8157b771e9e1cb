import Bukvar.Proofs.Diagnostic.OpenBlocks
import Bukvar.Proofs.Parsing.Account

/-!
# Targets of reading

A statement that reads a value takes the type of its target from the declarations before it. Blocks
do not limit these: a declaration counts from the place where it stands to the end of the source, or
to the next declaration of the same name. A target that is refused has no declaration before it, not
even one inside a block that was closed.

* `readTypes_follow`: types of targets, and refused targets.
-/

namespace Bukvar.Parsing

open Token (Buffer)
open Diagnostic (Problem)

/-- A target has the type of the last declaration before it, in any program that was read from any
tokens. A source is refused for a target exactly behind its name, which no word of a type announces
further up. -/
theorem readTypes_follow :
    (∀ (buffer : Buffer) (program : Program), (parseProgram buffer).outcome = .ok program →
        ∀ before target type after,
          blockOccurrences program = before ++ .reads target type :: after →
          LastDeclared before target.name type) ∧
      ∀ (source : String) (buffer : Buffer), Buffer.ofSource source = .ok buffer →
        ∀ (p : Located Problem) (name : String),
          (parseProgram buffer).outcome = .error (.problem p) → p.value = .undeclared name →
          ∃ front word id,
            buffer.tokens.toList.take (parseProgram buffer).buffer.cursor = front ++ [word, id] ∧
            (parseProgram buffer).buffer.cursor = front.length + 2 ∧
            word.kind = .readWord ∧ id.kind = .name ∧ id.text = name ∧ id.span = p.span ∧
            ¬ Announces name front := by
  constructor
  · intro buffer program hread before target type after hoccurs
    obtain ⟨m, n, -, hdeclared, haccounts⟩ := accounts_of_parse hread
    have hfollows := haccounts.follows
    rw [hdeclared, hoccurs] at hfollows
    exact hfollows.lastDeclared
  · rintro source buffer hbuffer ⟨span, value⟩ name hfail rfl
    obtain ⟨n, hleft, htokens, hexplained⟩ := explained_of_source hbuffer hfail
    rw [hleft, ← htokens]
    exact hexplained

/-- The variable is declared once more in the other arm of a conditional, and both targets behind the
conditional take that type. In the second source only a variable of another name is declared. -/
theorem readTypes_follow_arms :
    (∃ buffer program before target, Buffer.ofSource
        "начало цел x; если 1 то строка x; иначе плав x; кесли прочитать x; конец" = .ok buffer ∧
        (parseProgram buffer).outcome = .ok program ∧
        blockOccurrences program = before ++ [.reads target .double] ∧
        LastDeclared before "x" .double) ∧
      ∃ buffer p front word id, Buffer.ofSource "начало цел x; прочитать y; конец" = .ok buffer ∧
        (parseProgram buffer).outcome = .error (.problem p) ∧
        buffer.tokens.toList.take (parseProgram buffer).buffer.cursor = front ++ [word, id] ∧
        id.text = "y" ∧ ¬ Announces "y" front := by
  constructor
  · have hrun : (Buffer.ofSource
        "начало цел x; если 1 то строка x; иначе плав x; кесли прочитать x; конец").toOption.bind
        (fun buffer => (parseProgram buffer).outcome.toOption.map blockOccurrences) =
          some ([.declares .integer ⟨"x", 20, 1, by decide⟩,
            .declares .string ⟨"x", 52, 1, by decide⟩, .declares .double ⟨"x", 75, 1, by decide⟩] ++
            [.reads ⟨"x", 108, 1, by decide⟩ .double]) := by
      decide +kernel
    obtain ⟨buffer, hbuffer, hprogram⟩ := Token.exists_of_ofSource hrun
    obtain ⟨program, hread, hoccurs⟩ := Run.exists_of_outcome hprogram
    exact ⟨buffer, program, _, _, hbuffer, hread, hoccurs,
      readTypes_follow.1 buffer program hread _ _ _ _ hoccurs⟩
  · have hrun : (Buffer.ofSource "начало цел x; прочитать y; конец").toOption.bind
        (fun buffer => (parseProgram buffer).problem?) =
          some ⟨⟨42, 1, by decide⟩, .undeclared "y"⟩ := by
      decide +kernel
    obtain ⟨buffer, hbuffer, hproblem⟩ := Token.exists_of_ofSource hrun
    have hfail := Run.outcome_of_problem? hproblem
    obtain ⟨front, word, id, hfront, -, -, -, htext, -, hnone⟩ :=
      readTypes_follow.2 _ buffer hbuffer _ _ hfail rfl
    exact ⟨buffer, _, front, word, id, hbuffer, hfail, hfront, htext, hnone⟩

end Bukvar.Parsing
