import TraceWeave.Console.ClassStore
import TraceWeave.Console.Display
import TraceWeave.Machine.Tests
/-!
# The command that runs tests

The trace of a run is appended to the log before anything is printed, also when tests fail.
-/

namespace TraceWeave

variable {m : Type → Type} [Monad m] [Host m]

namespace RunRequest

/-- The directories whose classes a path stands for: those of woven classes if the path has any,
otherwise the path itself. -/
def classDirectories (path : String) : m (List String) := do
  let woven := [OutputMode.binary.productDirectory, OutputMode.binary.testDirectory]
  let present ← (woven.map (Path.join path)).filterM fun directory => Host.isDirectory directory
  return if present.isEmpty then [path] else present

/-- Loads the classes that a path stands for. -/
def loadPath (path : String) : CommandM m (List Class) := do
  ensure (.argument (.notDirectory path)) (← Host.isDirectory path)
  let directories ← classDirectories path
  return (← directories.mapM fun directory => ClassStore.load directory).flatten

/-- Loads the program. -/
def loadProgram (r : RunRequest) : CommandM m Program := do
  let classes := (← r.paths.mapM fun path => loadPath path).flatten
  if classes.isEmpty then throw (.argument .noClasses)
  return ⟨classes⟩

/-- What runs the program; a budget of zero counts as one. -/
def setup (r : RunRequest) (p : Program) : Setup :=
  { program := p, natives := .builtins, stepLimit := max r.stepLimit 1 }

/-- A recorder for the run. -/
def recorder (r : RunRequest) : Recorder :=
  .ofThreshold (RecorderSettings.ofRequest (.ofNat r.flushThreshold) r.log).flushThreshold.toNat

/-- Appends what a sink was given to the log; without anything new the log is left alone.  Returns
whether the log was written. -/
def appendLog (r : RunRequest) (sink : Sink) : m Bool :=
  if sink.lines.isEmpty then return true else Host.append r.log sink.text

/-- Runs the tests and writes their trace to the log.  If the program cannot be prepared, only what
was due by then is kept for sure, and a log that cannot be written does not matter any more. -/
def execute (r : RunRequest) (settings : Settings) (p : Program) :
    CommandM m (List TestRun) := do
  match (r.setup p).runTests settings (.initial p) with
  | .ok runs state =>
    let recorder := (r.recorder.run state.requests).flushLogs.1.flush.1
    ensure (.log r.log) (← r.appendLog recorder.sink)
    return runs
  | .error fault state =>
    let recorder := (r.recorder.run state.requests).close
    let _ ← r.appendLog recorder.sink
    throw (.program fault)

/-- Prints the outcome of a test; one that went through is printed only on demand. -/
def printRun (display : Display) (verbose : Bool) (run : TestRun) : CommandM m Unit := do
  match run.fault with
  | some fault => display.failure (run.signature ++ ": " ++ fault.message)
  | none => if verbose then display.success run.signature

/-- Runs tests; fails if one of them fails. -/
def perform (r : RunRequest) (display : Display) (verbose : Bool) : CommandM m Unit := do
  let settings ← ClassStore.settings r.settings
  let runs ← r.execute settings (← r.loadProgram)
  display.header "Tests"
  runs.forM fun run => printRun display verbose run
  let failed := runs.countP fun run => !run.passed
  display.countRow "tests" runs.length
  display.countRow "failed" failed
  display.row "log" r.log
  if failed ≠ 0 then throw (.tests failed runs.length)

end RunRequest

end TraceWeave
