import Bukvar.Journal
import Bukvar.Listing.Options

/-!
# Command-line arguments

Arguments are taken from the left. Options have a long name and may stand anywhere before a
lone double hyphen; a value follows its option as the next argument or behind an equals sign,
and as an argument of its own it must not look like an option. Nothing may be given twice.
Asking for the version or for help ends the reading, so only mistakes to the left of it count.
-/

namespace Bukvar.Command

open Journal (Threshold)

/-- A mistake in the arguments. -/
inductive UsageError where
  | unknownOption (argument : String)
  | missingValue (option : String)
  | unwantedValue (option : String)
  | repeated (option : String)
  | surplusFile (argument : String)
  | emptyFile
  | unknownLevel (text : String)
deriving DecidableEq

/-- What a mistake says. -/
def UsageError.message : UsageError → String
  | unknownOption argument => "error: unexpected argument '" ++ argument ++ "' found"
  | missingValue option => "error: a value is required for '" ++ option ++ "' but none was supplied"
  | unwantedValue option => "error: unexpected value for '" ++ option ++ "' found"
  | repeated option => "error: the argument '" ++ option ++ "' cannot be used multiple times"
  | surplusFile argument => "error: unexpected argument '" ++ argument ++ "' found"
  | emptyFile => "error: a value is required for '[FILE]' but none was supplied"
  | unknownLevel text => "error: invalid value '" ++ text ++ "' for '--log <LEVEL>'"

/-- Why no source is compiled. -/
inductive Stop where
  | version
  | help
  | usage (mistake : UsageError)
deriving DecidableEq

/-- What the arguments ask for. -/
structure Request where
  /-- Print the tree of the program and not its listing. -/
  tree : Bool
  options : Listing.Options
  threshold : Threshold
  /-- The file to be read; the standard input without one. -/
  file : Option String

/-- The options that stand alone. -/
inductive Flag where
  | tree
  | version
  | help
deriving DecidableEq

/-- How a flag is written. -/
def Flag.label : Flag → String
  | .tree => "--tree"
  | .version => "--version"
  | .help => "--help"

/-- The options that take a value. -/
inductive Setting where
  | nameSpace
  | className
  | log
deriving DecidableEq

/-- How a setting is written. -/
def Setting.label : Setting → String
  | .nameSpace => "--namespace"
  | .className => "--class"
  | .log => "--log"

/-- All options. -/
inductive Named where
  | flag (flag : Flag)
  | setting (setting : Setting)
deriving DecidableEq

namespace Named

/-- How an option is written. -/
def label : Named → String
  | flag f => f.label
  | setting s => s.label

/-- Every option once. -/
def all : List Named :=
  [flag .tree, flag .version, flag .help, setting .nameSpace, setting .className, setting .log]

/-- The option with the given name behind its two hyphens. -/
def ofName? (name : String) : Option Named :=
  all.find? (·.label = "--" ++ name)

end Named

/-- An argument by its form. -/
inductive Argument where
  /-- A lone double hyphen. -/
  | separator
  /-- Two hyphens, a name, and possibly a value behind an equals sign. -/
  | long (name : String) (value : Option String)
  /-- One hyphen and the letters behind it. -/
  | short (letters : List Char)
  /-- Anything else, a lone hyphen included. -/
  | plain (text : String)
deriving DecidableEq

/-- The form of an argument. -/
def Argument.ofText (text : String) : Argument :=
  match text.toList with
  | ['-', '-'] => .separator
  | '-' :: '-' :: body =>
    let name := String.ofList (body.takeWhile (· ≠ '='))
    match body.dropWhile (· ≠ '=') with
    | [] => .long name none
    | _ :: value => .long name (some (String.ofList value))
  | ['-'] => .plain text
  | '-' :: letters => .short letters
  | _ => .plain text

/-- Whether a text cannot be a value of its own: it starts with a hyphen and has more. -/
def looksLikeOption (text : String) : Bool :=
  match text.toList with
  | '-' :: _ :: _ => true
  | _ => false

/-- What the arguments so far have set. -/
structure Draft where
  tree : Bool := false
  nameSpace : Option String := none
  className : Option String := none
  threshold : Option Threshold := none
  file : Option String := none

namespace Draft

/-- Sets what is given only once. -/
def once {α : Type} (label : String) (old : Option α) (value : α) : Except Stop (Option α) :=
  match old with
  | none => .ok (some value)
  | some _ => .error (.usage (.repeated label))

/-- The threshold of the given name. -/
def level (text : String) : Except Stop Threshold :=
  match Threshold.ofName? text with
  | some threshold => .ok threshold
  | none => .error (.usage (.unknownLevel text))

/-- Gives a setting its value. -/
def set (draft : Draft) (setting : Setting) (value : String) : Except Stop Draft := do
  match setting with
  | .nameSpace => return { draft with nameSpace := ← once setting.label draft.nameSpace value }
  | .className => return { draft with className := ← once setting.label draft.className value }
  | .log =>
    let threshold ← level value
    return { draft with threshold := ← once setting.label draft.threshold threshold }

/-- Raises a flag. -/
def raise (draft : Draft) : Flag → Except Stop Draft
  | .tree =>
    if draft.tree then .error (.usage (.repeated Flag.tree.label))
    else .ok { draft with tree := true }
  | .version => .error .version
  | .help => .error .help

/-- Names the file. -/
def setFile (draft : Draft) (file : String) : Except Stop Draft :=
  if draft.file.isSome then .error (.usage (.surplusFile file))
  else if file = "" then .error (.usage .emptyFile)
  else .ok { draft with file := some file }

/-- An argument of short letters, of which the first one decides. -/
def short (letters : List Char) : Stop :=
  match letters with
  | 'V' :: _ => .version
  | 'h' :: _ => .help
  | _ => .usage (.unknownOption (String.ofList ('-' :: letters)))

/-- Takes the arguments from the left. -/
def scan (draft : Draft) : List String → Except Stop Draft
  | [] => .ok draft
  | argument :: rest =>
    match Argument.ofText argument with
    | .separator => rest.foldlM setFile draft
    | .plain text => do (← draft.setFile text).scan rest
    | .short letters => .error (short letters)
    | .long name value =>
      match Named.ofName? name, value with
      | none, _ => .error (.usage (.unknownOption argument))
      | some (.flag flag), some _ => .error (.usage (.unwantedValue flag.label))
      | some (.flag flag), none => do (← draft.raise flag).scan rest
      | some (.setting setting), some text => do (← draft.set setting text).scan rest
      | some (.setting setting), none =>
        match rest with
        | [] => .error (.usage (.missingValue setting.label))
        | text :: rest =>
          if looksLikeOption text then .error (.usage (.missingValue setting.label))
          else do (← draft.set setting text).scan rest

/-- The threshold for the journal: what an option says, else what the environment says, else
warnings. -/
def thresholdWith (draft : Draft) (environment : Option String) : Except Stop Threshold :=
  match draft.threshold, environment with
  | some threshold, _ => .ok threshold
  | none, some text => level text
  | none, none => .ok (some .warn)

end Draft

/-- What the arguments ask for, where `environment` is the level that the environment sets. -/
def Request.ofArguments (arguments : List String) (environment : Option String) :
    Except Stop Request := do
  let draft ← Draft.scan {} arguments
  let threshold ← draft.thresholdWith environment
  let usual : Listing.Options := {}
  return {
    tree := draft.tree
    options := { usual with
      nameSpace := draft.nameSpace.getD usual.nameSpace
      className := draft.className.getD usual.className }
    threshold := threshold
    file := draft.file }

end Bukvar.Command
