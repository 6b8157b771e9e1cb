import Bukvar.Listing.Options
import Bukvar.Listing.Statement

/-!
# Listings

The C# program of a pseudocode program: a class with a `Main` that holds the statements.
`Main` returns a number exactly when some statement returns a value, and then its last
statement is a return.
-/

namespace Bukvar.Listing

/-- The type that `Main` returns. -/
def mainType (program : Program) : String :=
  if returnsValue program then "int" else "void"

/-- Writes a whole listing. -/
def writeProgram (options : Options) (program : Program) : Writer := do
  let write := writeLine options.indent
  write "using System;"
  writeBlank
  write ("namespace " ++ options.nameSpace ++ ";")
  writeBlank
  write ("public class " ++ options.className)
  writeBraced options.indent do
    write ("public static " ++ mainType program ++ " Main()")
    writeBraced options.indent do
      writeBlock options.indent (returnsValue program) program
      if returnsValue program && !program.getLast?.any isReturn then
        write "return 0;"

/-- The text of a whole listing. -/
def generate (options : Options) (program : Program) : String :=
  (Sheet.blank.after (writeProgram options program)).text

end Bukvar.Listing
