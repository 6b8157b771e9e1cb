import Bukvar.Command.Report

/-!
# The command

Reads the arguments and the source, and leaves the report on the outputs.
-/

namespace Bukvar.Command

/-- An error number without its sign, which some operations leave negative. -/
def errorNumber (code : UInt32) : Nat :=
  if code.toNat < 0x80000000 then code.toNat else 0x100000000 - code.toNat

/-- The error number behind a failed operation. -/
def systemCode : IO.Error → Nat
  | .noFileOrDirectory _ code _ | .permissionDenied _ code _ | .inappropriateType _ code _
  | .alreadyExists _ code _ | .resourceExhausted _ code _ | .interrupted _ code _
  | .invalidArgument _ code _ | .noSuchThing _ code _ => errorNumber code
  | .otherError code _ | .resourceBusy code _ | .resourceVanished code _
  | .unsupportedOperation code _ | .hardwareFault code _ | .unsatisfiedConstraints code _
  | .illegalOperation code _ | .protocolError code _ | .timeExpired code _ => errorNumber code
  | .unexpectedEof | .userError _ => 5

/-- The bytes of a file, or of the standard input. -/
def readInput (file : Option String) : IO (Except InputError ByteArray) := do
  try
    match file with
    | some path => return .ok (← IO.FS.readBinFile path)
    | none => return .ok (← (← IO.getStdin).readBinToEnd)
  catch error => return .error (.system (systemCode error))

/-- The report on a list of arguments. -/
def perform (arguments : List String) : IO Report := do
  match Request.ofArguments arguments (← IO.getEnv "PSEUDOC_LOG") with
  | .error stop => return stop.report
  | .ok request => return request.report (← readInput request.file)

end Bukvar.Command

/-- The entry point of the command. -/
def main (arguments : List String) : IO UInt32 := do
  let report ← Bukvar.Command.perform arguments
  IO.print report.output
  IO.eprint report.errors
  return report.exitCode.toUInt32
