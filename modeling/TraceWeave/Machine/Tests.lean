import TraceWeave.Machine.Basic
import TraceWeave.Settings
/-!
# Test runs

Static initializers run once, in class order, before any test.  A test is a test method without
parameters; a failing one does not keep the others from running.
-/

namespace TraceWeave

/-- The outcome of a test. -/
structure TestRun where
  /-- The signature of the test method. -/
  signature : String
  /-- Why the test failed, if it did. -/
  fault : Option Fault
deriving DecidableEq

/-- Whether the test went through. -/
def TestRun.passed (r : TestRun) : Bool := r.fault.isNone

namespace Setup

variable (setup : Setup)

/-- Runs methods at the top level, in order, until one fails. -/
def runAll : List (String × Method) → MachineM Unit
  | [] => return
  | (owner, m) :: rest => do
    let _ ← setup.executeTop owner m []
    runAll rest

/-- The static initializers of a program, in class order, with their classes. -/
def initializers : List (String × Method) :=
  setup.program.classes.flatMap fun c =>
    (c.methods.filter Method.isInitializer).map fun m => (c.name, m)

/-- Runs the static initializers, unless they have been started before. -/
def initializeStatics : MachineM Unit := do
  if (← get).initialized then return
  modify fun s => { s with initialized := true }
  setup.runAll setup.initializers

/-- The result of a run, with a fault as a result. -/
def attempt {α : Type} (x : MachineM α) : MachineM (Except Fault α) := fun s =>
  match x s with
  | .ok a s => .ok (.ok a) s
  | .error e s => .ok (.error e) s

/-- Whether a method is run as a test. -/
def isRunnableTest (settings : Settings) (owner : String) (m : Method) : Bool :=
  m.params.isEmpty && !m.isInitializer && settings.isTestMethod owner m.name

/-- The tests of a program, in order, with their classes. -/
def tests (settings : Settings) : List (String × Method) :=
  setup.program.classes.flatMap fun c =>
    (c.methods.filter (isRunnableTest settings c.name)).map fun m => (c.name, m)

/-- Runs a test. -/
def runTest (owner : String) (m : Method) : MachineM TestRun := do
  let fault := match ← attempt (setup.executeTop owner m []) with
    | .ok _ => none
    | .error e => some e
  return ⟨m.signature owner, fault⟩

/-- Runs tests, in order. -/
def runEach : List (String × Method) → MachineM (List TestRun)
  | [] => return []
  | (owner, m) :: rest => do
    let run ← setup.runTest owner m
    let runs ← runEach rest
    return run :: runs

/-- Runs the static initializers and then every test. -/
def runTests (settings : Settings) : MachineM (List TestRun) := do
  setup.initializeStatics
  setup.runEach (setup.tests settings)

end Setup

end TraceWeave
