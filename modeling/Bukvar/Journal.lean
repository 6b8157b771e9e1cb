import Bukvar.Token.Basic

/-!
# The journal of a compilation

The compiler notes what it does. An event is what happened; its severity, its source and
its wording follow from it. A reader of the journal chooses how severe an event has to be.
-/

namespace Bukvar.Journal

/-- How much an event matters, the most severe first. -/
inductive Severity where
  | error
  | warn
  | info
  | debug
  | trace
deriving DecidableEq

namespace Severity

/-- Place in the order of severities, the most severe first. -/
def rank : Severity → Nat
  | .error => 1
  | .warn => 2
  | .info => 3
  | .debug => 4
  | .trace => 5

/-- The name of a severity. -/
def label : Severity → String
  | .error => "ERROR"
  | .warn => "WARN"
  | .info => "INFO"
  | .debug => "DEBUG"
  | .trace => "TRACE"

/-- Every severity once. -/
def all : List Severity :=
  [.error, .warn, .info, .debug, .trace]

end Severity

/-- The least severity that is shown; `none` shows nothing. -/
abbrev Threshold := Option Severity

/-- Whether a threshold lets a severity through. -/
def Threshold.admits (threshold : Threshold) (severity : Severity) : Bool :=
  threshold.any (severity.rank ≤ ·.rank)

/-- The threshold with a given name, in upper or lower case. -/
def Threshold.ofName? (name : String) : Option Threshold :=
  let upper := String.ofList (name.toList.map Char.toUpper)
  if upper = "OFF" then some none
  else (Severity.all.find? (·.label = upper)).map some

/-- What the compiler notes. -/
inductive Event where
  /-- The tokens of the last run were dropped. -/
  | discarded (count : Nat)
  /-- A unit of the source was classified. -/
  | unit (token : Token)
  /-- The source has been split into tokens. -/
  | lexed (count : Nat)
  /-- A program is about to be read. -/
  | parsing (count : Nat)
  /-- A program was read. -/
  | parsed (count : Nat)
  /-- A listing was produced. -/
  | generated (bytes : Nat)
deriving DecidableEq

namespace Event

/-- How much an event matters. -/
def severity : Event → Severity
  | unit _ => .trace
  | _ => .debug

/-- The part of the compiler that an event comes from. -/
def source : Event → String
  | discarded _ => "pseudoc"
  | unit _ | lexed _ => "pseudoc::lexer"
  | parsing _ | parsed _ => "pseudoc::parser"
  | generated _ => "pseudoc::codegen"

/-- What an event says. -/
def message : Event → String
  | discarded count => "discarding " ++ Decimal.naturalText count ++ " buffered tokens"
  | unit token =>
    token.span.text ++ ": " ++ Text.quoted token.text ++ " => " ++ token.kind.label
  | lexed count => "lexed " ++ Decimal.naturalText count ++ " tokens"
  | parsing count => "parsing program from " ++ Decimal.naturalText count ++ " tokens"
  | parsed count => "parsed " ++ Decimal.naturalText count ++ " top-level statements"
  | generated bytes => "generated " ++ Decimal.naturalText bytes ++ " bytes of C#"

/-- An event as a line of the journal. -/
def text (event : Event) : String :=
  event.severity.label ++ " " ++ event.source ++ ": " ++ event.message

end Event

/-- The events that a threshold lets through, as lines. -/
def shown (threshold : Threshold) (events : List Event) : List String :=
  (events.filter (threshold.admits ·.severity)).map Event.text

end Bukvar.Journal
