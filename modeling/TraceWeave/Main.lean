import TraceWeave.Console.Perform
/-!
# The program

Carries out commands on the files of the machine.
-/

namespace TraceWeave

/-- Whether an action succeeds; an error means that it does not. -/
def succeeds (action : IO Unit) : IO Bool :=
  try
    action
    return true
  catch _ => return false

/-- The result of an action, if it succeeds. -/
def result? {α : Type} (action : IO α) : IO (Option α) :=
  try return some (← action)
  catch _ => return none

instance : Host IO where
  isDirectory path := return (← result? do (← IO.FS.realPath path).isDir).getD false
  names? path := result? do
    return (← (← IO.FS.realPath path).readDir).toList.map (·.fileName)
  read? path := result? (IO.FS.readFile path)
  write path text := succeeds (IO.FS.writeFile path text)
  append path text := succeeds do (← IO.FS.Handle.mk path .append).putStr text
  makeDirectory path := succeeds (IO.FS.createDirAll path)
  printLine line := IO.println line

/-- What is printed when help is asked for. -/
def usage : List String :=
  ["Usage: traceweave [-v] [-q] [--color auto|always|never] COMMAND",
    "  instrument PROJECT --lines FILE --fields FILE [--mode text|binary] [--config FILE] " ++
      "[--report FILE]",
    "  run PATH... [--log FILE] [--flush-threshold N] [--config FILE] [--step-limit N]",
    "  check-log FILE [--json]"]

/-- Carries out a command and returns the exit code. -/
def carryOut (i : Invocation) : IO UInt32 := do
  let terminal ← (← IO.getStdout).isTty
  let command : CommandM IO Unit := i.perform terminal
  match ← command.run with
  | .ok _ => return 0
  | .error e =>
    IO.eprintln ("Error: " ++ e.message)
    return 1

end TraceWeave

open TraceWeave in
/-- Reads the command line and carries it out. -/
def main (arguments : List String) : IO UInt32 := do
  match Invocation.parse arguments with
  | .ok i => carryOut i
  | .error .information =>
    usage.forM fun line => IO.println line
    return 0
  | .error .refused =>
    usage.forM fun line => IO.eprintln line
    return 2
