/-!
# Options of a listing

What can be chosen about the C# program around the statements.
-/

namespace Bukvar.Listing

/-- The names and the indentation of a listing. -/
structure Options where
  nameSpace : String := "GeneratedProgram"
  className : String := "Program"
  /-- One step of indentation. -/
  indent : String := "    "
deriving DecidableEq

end Bukvar.Listing
