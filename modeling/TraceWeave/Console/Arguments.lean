import TraceWeave.Text.Split
/-!
# Reading command lines

Arguments are options and plain texts in any order.  An option is long, with two dashes, or a letter
after one dash; letters can stand together.  The value of a long option follows an equals sign or
is the next argument, which then must not look like an option.  Two dashes alone end the options.

Reading goes from left to right and stops at the first fault or request for help.  Only one thing is
put off: a value that stands as an argument of its own is looked at when the next argument is read,
and if that one is the name of a command, after the arguments of the command.
-/

namespace TraceWeave

open Text

/-- Why a command line leads to no command. -/
inductive UsageStop where
  /-- Help or the version was asked for. -/
  | information
  /-- The arguments make no sense. -/
  | refused
deriving DecidableEq, Repr

/-- What an option takes. -/
inductive OptionKind where
  /-- Nothing; the option stands once at most. -/
  | flag
  /-- Nothing; the option may be repeated. -/
  | count
  /-- A value, which has to be accepted; the option stands once at most. -/
  | value (accepts : String → Bool)
  /-- Nothing; the option asks for help or the version. -/
  | information

/-- An option. -/
structure OptionSpec where
  /-- The name after two dashes. -/
  long : String
  /-- The letter after one dash, if there is one. -/
  letter : Option Char := none
  /-- What the option takes. -/
  kind : OptionKind

/-- The arguments that are understood. -/
structure ArgumentSpec where
  /-- The options. -/
  options : List OptionSpec
  /-- The greatest number of plain arguments, if there is one. -/
  maxPlain : Option Nat
  /-- The names of commands; the first plain argument has to be one if there are any. -/
  commands : List String := []

/-- The arguments that were read. -/
structure Arguments where
  /-- The options, with their values if they take one. -/
  options : List (String × String) := []
  /-- The plain arguments. -/
  plain : List String := []
  /-- An option with a value that has not been looked at. -/
  pending : Option (OptionSpec × String) := none
  /-- The name of a command and the arguments that follow it. -/
  command : Option (String × List String) := none

namespace Arguments

/-- Whether an option was given. -/
def has (a : Arguments) (name : String) : Bool := a.options.any fun o => o.1 == name

/-- How often an option was given. -/
def count (a : Arguments) (name : String) : Nat := a.options.countP fun o => o.1 == name

/-- The value of an option. -/
def value? (a : Arguments) (name : String) : Option String := a.options.lookup name

/-- Adds an option with its value. -/
def add (a : Arguments) (spec : OptionSpec) (value : String) : Except UsageStop Arguments :=
  let added := { a with options := a.options ++ [(spec.long, value)] }
  match spec.kind with
  | .information => throw .information
  | .count => return added
  | .flag => if a.has spec.long then throw .refused else return added
  | .value accepts => if a.has spec.long || !accepts value then throw .refused else return added

/-- Looks at the value that was put off. -/
def settle (a : Arguments) : Except UsageStop Arguments :=
  match a.pending with
  | none => return a
  | some (spec, value) => { a with pending := none }.add spec value

/-- Adds a plain argument. -/
def addPlain (spec : ArgumentSpec) (text : String) (a : Arguments) : Except UsageStop Arguments :=
  if text.isEmpty || spec.maxPlain.any (· ≤ a.plain.length) then throw .refused
  else return { a with plain := a.plain ++ [text] }

/-- Adds the options behind letters that stand together. -/
def addLetters (spec : ArgumentSpec) : List Char → Arguments → Except UsageStop Arguments
  | [], a => return a
  | c :: rest, a =>
    match spec.options.find? fun o => o.letter == some c with
    | some o => do addLetters spec rest (← a.add o "")
    | none => throw .refused

end Arguments

/-- An argument by its form. -/
inductive ArgumentForm where
  /-- Two dashes. -/
  | endOfOptions
  /-- A long option, with the text after its equals sign if there is one. -/
  | long (name : String) (value : Option String)
  /-- Letters after a dash. -/
  | letters (cs : List Char)
  /-- Anything else. -/
  | plain
deriving DecidableEq, Repr

/-- The form of an argument. -/
def ArgumentForm.of (argument : String) : ArgumentForm :=
  match argument.toList with
  | ['-', '-'] => .endOfOptions
  | '-' :: '-' :: body =>
    match splitFirst? '=' body with
    | some (name, value) => .long (String.ofList name) (some (String.ofList value))
    | none => .long (String.ofList body) none
  | '-' :: c :: rest => .letters (c :: rest)
  | _ => .plain

namespace ArgumentSpec

variable (spec : ArgumentSpec)

/-- The option with a long name. -/
def option? (name : String) : Option OptionSpec := spec.options.find? fun o => o.long == name

/-- Reads arguments after what has been read already. -/
def readAfter (a : Arguments) : List String → Except UsageStop Arguments
  | [] => a.settle
  | argument :: rest => do
    match ArgumentForm.of argument with
    | .endOfOptions => rest.foldlM (fun a text => a.addPlain spec text) (← a.settle)
    | .long name value =>
      let a ← a.settle
      match spec.option? name, value with
      | none, _ => throw .refused
      | some ⟨long, letter, .value accepts⟩, some value =>
        readAfter (← a.add ⟨long, letter, .value accepts⟩ value) rest
      | some ⟨long, letter, .value accepts⟩, none =>
        match rest with
        | value :: rest =>
          if ArgumentForm.of value = .plain then
            readAfter { a with pending := some (⟨long, letter, .value accepts⟩, value) } rest
          else throw .refused
        | [] => throw .refused
      | some _, some _ => throw .refused
      | some o, none => readAfter (← a.add o "") rest
    | .letters cs => readAfter (← (← a.settle).addLetters spec cs) rest
    | .plain =>
      if spec.commands.isEmpty then
        readAfter (← (← a.settle).addPlain spec argument) rest
      else if spec.commands.contains argument then
        return { a with command := some (argument, rest) }
      else throw .refused

/-- Reads arguments. -/
def read (arguments : List String) : Except UsageStop Arguments := spec.readAfter {} arguments

end ArgumentSpec

end TraceWeave
