import TraceWeave.Console.Arguments
import TraceWeave.Console.Verbosity
import TraceWeave.Machine.Basic
import TraceWeave.Settings
/-!
# Commands

The three commands, their options, and how a command line names one.
-/

namespace TraceWeave

/-- When output is styled. -/
inductive ColorChoice where
  /-- When the output is a terminal. -/
  | auto
  /-- Always. -/
  | always
  /-- Never. -/
  | never
deriving DecidableEq, Repr

/-- The choice with a name. -/
def ColorChoice.ofName? : String → Option ColorChoice
  | "auto" => some .auto
  | "always" => some .always
  | "never" => some .never
  | _ => none

/-- The form in which woven classes are written. -/
inductive OutputMode where
  /-- Listings. -/
  | text
  /-- Class files. -/
  | binary
deriving DecidableEq, Repr

namespace OutputMode

/-- The mode with a name. -/
def ofName? : String → Option OutputMode
  | "text" => some .text
  | "binary" => some .binary
  | _ => none

/-- The directory of woven product classes in a module. -/
def productDirectory : OutputMode → String
  | .text => "ir-out"
  | .binary => "instrumented-classes"

/-- The directory of woven test classes in a module. -/
def testDirectory : OutputMode → String
  | .text => "ir-test-out"
  | .binary => "instrumented-test-classes"

/-- The ending of the names of written files. -/
def ending : OutputMode → String
  | .text => "ir"
  | .binary => "json"

end OutputMode

/-- What weaving a project needs. -/
structure WeaveRequest where
  /-- The directory of the project. -/
  project : String
  /-- The file of the line selection. -/
  lines : String
  /-- The file of the field selection. -/
  fields : String
  /-- The form of the output. -/
  mode : OutputMode := .text
  /-- The settings file. -/
  settings : Option String := none
  /-- Where the report is written. -/
  report : Option String := none
deriving DecidableEq, Repr

/-- What running tests needs. -/
structure RunRequest where
  /-- The directories of modules or of class files. -/
  paths : List String
  /-- The log. -/
  log : String
  /-- The number of records in a batch that makes it due. -/
  flushThreshold : Nat
  /-- The settings file. -/
  settings : Option String := none
  /-- The number of instructions that a test may execute. -/
  stepLimit : Nat
deriving DecidableEq, Repr

/-- What summarizing a log needs. -/
structure SummaryRequest where
  /-- The log. -/
  file : String
  /-- Whether the summary is printed as a document. -/
  asDocument : Bool
deriving DecidableEq, Repr

/-- A command. -/
inductive Command where
  /-- Weave probes into the classes of a project. -/
  | weave (r : WeaveRequest)
  /-- Run the tests of woven classes. -/
  | run (r : RunRequest)
  /-- Summarize a log. -/
  | summarize (r : SummaryRequest)
deriving DecidableEq, Repr

/-- A command with the options that all commands share. -/
structure Invocation where
  /-- How much is printed. -/
  verbosity : Verbosity
  /-- When output is styled. -/
  color : ColorChoice
  /-- The command. -/
  command : Command
deriving DecidableEq, Repr

namespace Invocation

/-- The options that may stand anywhere. -/
def sharedOptions : List OptionSpec :=
  [{ long := "verbose", letter := some 'v', kind := .count },
    { long := "quiet", letter := some 'q', kind := .flag },
    { long := "color", kind := .value fun s => (ColorChoice.ofName? s).isSome },
    { long := "help", letter := some 'h', kind := .information },
    { long := "version", letter := some 'V', kind := .information }]

/-- Whether a path can be given. -/
def isPath (s : String) : Bool := !s.isEmpty

/-- Reads a number of machine size. -/
def size? (s : String) : Option Nat :=
  (Text.natural? s.toList).bind fun n => if n < UInt64.size then some n else none

/-- Whether a number of machine size can be read. -/
def isSize (s : String) : Bool := (size? s).isSome

/-- An option with a path. -/
def pathOption (name : String) : OptionSpec := { long := name, kind := .value isPath }

/-- An option with a number. -/
def sizeOption (name : String) : OptionSpec := { long := name, kind := .value isSize }

/-- The arguments of weaving. -/
def weaveSpec : ArgumentSpec where
  options := sharedOptions ++
    [pathOption "lines", pathOption "fields",
      { long := "mode", kind := .value fun s => (OutputMode.ofName? s).isSome },
      pathOption "config", pathOption "report"]
  maxPlain := some 1

/-- The arguments of running tests. -/
def runSpec : ArgumentSpec where
  options := sharedOptions ++
    [pathOption "log", sizeOption "flush-threshold", pathOption "config", sizeOption "step-limit"]
  maxPlain := none

/-- The arguments of summarizing a log. -/
def summarySpec : ArgumentSpec where
  options := sharedOptions ++ [{ long := "json", kind := .flag }]
  maxPlain := some 1

/-- The arguments before the name of a command. -/
def rootSpec : ArgumentSpec where
  options := sharedOptions
  maxPlain := some 0
  commands := ["instrument", "run", "check-log", "help"]

/-- What weaving needs, if the arguments tell. -/
def weaveRequest? (a : Arguments) : Option WeaveRequest := do
  return { project := ← a.plain.head?, lines := ← a.value? "lines", fields := ← a.value? "fields",
           mode := ((a.value? "mode").bind OutputMode.ofName?).getD .text,
           settings := a.value? "config", report := a.value? "report" }

/-- What running tests needs, if the arguments tell. -/
def runRequest? (a : Arguments) : Option RunRequest :=
  let usual : RecorderSettings := {}
  if a.plain.isEmpty then none
  else some
    { paths := a.plain, log := (a.value? "log").getD usual.logPath,
      flushThreshold := ((a.value? "flush-threshold").bind size?).getD usual.flushThreshold.toNat,
      settings := a.value? "config",
      stepLimit := ((a.value? "step-limit").bind size?).getD defaultStepLimit }

/-- What summarizing a log needs, if the arguments tell. -/
def summaryRequest? (a : Arguments) : Option SummaryRequest := do
  return { file := ← a.plain.head?, asDocument := a.has "json" }

/-- The commands that carry something out: their names, their arguments, and what these tell. -/
def commands : List (String × ArgumentSpec × (Arguments → Option Command)) :=
  [("instrument", weaveSpec, fun a => (weaveRequest? a).map .weave),
    ("run", runSpec, fun a => (runRequest? a).map .run),
    ("check-log", summarySpec, fun a => (summaryRequest? a).map .summarize)]

/-- What a request for help stops with: it may name one command. -/
def helpStop : List String → UsageStop
  | [] => .information
  | [name] => if rootSpec.commands.contains name then .information else .refused
  | _ => .refused

/-- The arguments that decide on a shared option: those after the name of the command if they have
it, otherwise those before. -/
def deciding (name : String) (before after : Arguments) : Arguments :=
  if after.has name then after else before

/-- Puts a command together with the shared options before and after its name. -/
def ofCommand (before after : Arguments) (command : Command) : Invocation :=
  { verbosity := .ofFlags ((deciding "quiet" before after).has "quiet")
      ((deciding "verbose" before after).count "verbose")
    color := (((deciding "color" before after).value? "color").bind ColorChoice.ofName?).getD .auto
    command }

/-- Reads a command line. -/
def parse (arguments : List String) : Except UsageStop Invocation := do
  let before ← rootSpec.read arguments
  match before.command with
  | none => throw .refused
  | some (name, rest) =>
    match commands.find? fun c => c.1 == name with
    | none => throw (helpStop rest)
    | some (_, spec, command?) =>
      let after ← spec.read rest
      match command? after with
      | none => throw .refused
      | some command => return ofCommand (← before.settle) after command

end Invocation

end TraceWeave
