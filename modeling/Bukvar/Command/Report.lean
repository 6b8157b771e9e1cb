import Bukvar.Command.Arguments
import Bukvar.Compiler
import Bukvar.Outline

/-!
# What the command answers

A report is everything that a run of the command leaves behind: its exit code and the texts
on both outputs. The bytes of the source are read outside and handed in, so that the report
is a function of them.
-/

namespace Bukvar.Command

/-- Why the source could not be read. -/
inductive InputError where
  /-- The operating system refused, with this error number. -/
  | system (code : Nat)
  /-- The bytes are not UTF-8. -/
  | notText
deriving DecidableEq

/-- The usual wording for an error number of the operating system. -/
def systemText : Nat → String
  | 1 => "Operation not permitted"
  | 2 => "No such file or directory"
  | 5 => "Input/output error"
  | 13 => "Permission denied"
  | 20 => "Not a directory"
  | 21 => "Is a directory"
  | 36 => "File name too long"
  | 40 => "Too many levels of symbolic links"
  | _ => "Unknown error"

/-- What an error says. -/
def InputError.message : InputError → String
  | system code => systemText code ++ " (os error " ++ Decimal.naturalText code ++ ")"
  | notText => "stream did not contain valid UTF-8"

/-- What a run of the command leaves behind. -/
structure Report where
  exitCode : Nat
  output : String
  errors : String
deriving DecidableEq

namespace Report

/-- A run that went well. -/
def success (output : String) : Report :=
  ⟨0, output, ""⟩

/-- A run that did not, with one line to say why. -/
def failure (exitCode : Nat) (message : String) : Report :=
  ⟨exitCode, "", message ++ "\n"⟩

end Report

/-- The version of the command. -/
def versionText : String :=
  "pseudoc 0.0.1\n"

/-- The arguments of the command. -/
def helpText : String :=
  "\n".intercalate
    ["Translates FILE (or the standard input) into a C# program",
      "",
      "Usage: pseudoc [OPTIONS] [FILE]",
      "",
      "Arguments:",
      "  [FILE]  Source file; the standard input when absent",
      "",
      "Options:",
      "      --tree              Print the syntax tree instead of C#",
      "      --namespace <NAME>  Namespace of the generated program [default: GeneratedProgram]",
      "      --class <NAME>      Class holding the generated Main [default: Program]",
      "      --log <LEVEL>       [env: PSEUDOC_LOG=] [default: warn]",
      "  -h, --help              Print help",
      "  -V, --version           Print version",
      ""]

/-- The report where nothing is compiled. -/
def Stop.report : Stop → Report
  | version => .success versionText
  | help => .success helpText
  | usage mistake => .failure 2 mistake.message

/-- The text of the source from its bytes. -/
def decode (bytes : ByteArray) : Except InputError String :=
  match String.fromUTF8? bytes with
  | some text => .ok text
  | none => .error .notText

/-- The answer to a request for a source, as text. -/
def Request.answer (request : Request) (source : String) : Outcome String :=
  let compiler := Compiler.fresh request.options
  if request.tree then (compiler.parse source).outcome.andThen (Outline.ofProgram 0)
  else (compiler.compile source).outcome

/-- The report on an answer. A fault ends the command at once. -/
def Report.ofOutcome (source : String) : Outcome String → Report
  | .done text => .success text
  | .rejected rejection =>
    match rejection.render source with
    | .ok message => .failure 1 message
    | .error _ => .failure 101 "the compiler stopped"
  | .fault _ => .failure 101 "the compiler stopped"

/-- The report on a request, given what was read. -/
def Request.report (request : Request) (input : Except InputError ByteArray) : Report :=
  match input.bind decode with
  | .error error => .failure 1 error.message
  | .ok source => .ofOutcome source (request.answer source)

end Bukvar.Command
