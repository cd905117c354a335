import TraceWeave.Console.Command
import TraceWeave.Console.Host
import TraceWeave.Machine.Fault
/-!
# Why commands fail
-/

namespace TraceWeave

/-- What is wrong with an argument. -/
inductive ArgumentFault where
  /-- The directory of the project does not exist. -/
  | missingProject (path : String)
  /-- A path that has to lead to a directory does not. -/
  | notDirectory (path : String)
  /-- A module has no classes at all. -/
  | emptyModule (path : String)
  /-- There are no classes to run. -/
  | noClasses
deriving DecidableEq, Repr

/-- The directory of product classes in a module. -/
def productClasses : String := "target/classes"

/-- The directory of test classes in a module. -/
def testClasses : String := "target/test-classes"

/-- What a fault of an argument is reported as. -/
def ArgumentFault.message : ArgumentFault → String
  | .missingProject path => "project directory " ++ path ++ " does not exist"
  | .notDirectory path => path ++ " is not a directory"
  | .emptyModule path =>
    "module " ++ path ++ " has no classes under " ++ productClasses ++ " or " ++ testClasses
  | .noClasses => "no class files found"

/-- Why a command fails. -/
inductive CommandError where
  /-- An argument is no good. -/
  | argument (fault : ArgumentFault)
  /-- The settings file cannot be read. -/
  | unreadableSettings (path : String)
  /-- The settings file is not well formed. -/
  | invalidSettings (path : String)
  /-- The line selection cannot be read. -/
  | unreadableSelection (path : String)
  /-- A file is not the file of a class. -/
  | invalidClass (path : String)
  /-- A file or a directory cannot be read. -/
  | unreadable (path : String)
  /-- A file or a directory cannot be written. -/
  | unwritable (path : String)
  /-- The log cannot be written. -/
  | log (path : String)
  /-- The program cannot be prepared for its tests. -/
  | program (fault : Fault)
  /-- Some tests fail. -/
  | tests (failed total : Nat)
deriving DecidableEq

/-- What an error is reported as. -/
def CommandError.message : CommandError → String
  | .argument fault => "Invalid argument: " ++ fault.message
  | .unreadableSettings path => "Configuration error: cannot read " ++ path
  | .invalidSettings path => "Configuration error: invalid settings in " ++ path
  | .unreadableSelection path => "Probetrace error: I/O error: cannot read " ++ path
  | .invalidClass path => "Failed to load " ++ path ++ ": invalid class file"
  | .unreadable path => "I/O error: cannot read " ++ path
  | .unwritable path => "I/O error: cannot write " ++ path
  | .log path => "Probetrace error: Trace log flush failed: cannot write " ++ path
  | .program fault => "Probetrace error: " ++ fault.message
  | .tests failed total =>
    "Test execution failed: " ++ toString failed ++ " of " ++ toString total ++ " tests failed"

/-- Commands: they reach files and the console through a host, and stop at the first error. -/
abbrev CommandM (m : Type → Type) := ExceptT CommandError m

instance {m : Type → Type} [Monad m] [Host m] : Host (CommandM m) where
  isDirectory path := ExceptT.lift (Host.isDirectory path)
  names? path := ExceptT.lift (Host.names? path)
  read? path := ExceptT.lift (Host.read? path)
  write path text := ExceptT.lift (Host.write path text)
  append path text := ExceptT.lift (Host.append path text)
  makeDirectory path := ExceptT.lift (Host.makeDirectory path)
  printLine line := ExceptT.lift (Host.printLine line)

/-- Fails with an error if there is no result. -/
def orFail {m : Type → Type} [Monad m] {α : Type} (e : CommandError) : Option α → CommandM m α
  | some a => return a
  | none => throw e

/-- Fails with an error if something was not done. -/
def ensure {m : Type → Type} [Monad m] (e : CommandError) (done : Bool) : CommandM m Unit :=
  if done then return else throw e

end TraceWeave
