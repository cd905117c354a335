import TraceWeave.Console.ClassStore
import TraceWeave.Console.Display
import TraceWeave.Console.Documents
import TraceWeave.Weave.Session
/-!
# The command that weaves a project

Every module is loaded, woven and written before the next one is looked at.  One session spans all
modules, so a line that is probed in one is not probed again in another.
-/

namespace TraceWeave

variable {m : Type → Type} [Monad m] [Host m]

namespace WeaveRequest

/-- What is to be woven.  A field selection that cannot be read selects nothing. -/
def plan (r : WeaveRequest) : CommandM m Plan := do
  let settings ← ClassStore.settings r.settings
  let lines ← orFail (.unreadableSelection r.lines) (← Host.read? r.lines)
  let fields ← Host.read? r.fields
  return { settings, lines := .parse lines, fields := (fields.map FieldSelection.parse).getD ∅ }

/-- Weaves a module. -/
def weaveModule (plan : Plan) (mode : OutputMode) (path : String) (s : Session) :
    CommandM m (Session × Report) := do
  let product ← ClassStore.load (Path.join path productClasses)
  let tests ← ClassStore.load (Path.join path testClasses)
  if product.isEmpty && tests.isEmpty then throw (.argument (.emptyModule path))
  let (product, s, productReport) := plan.weaveProduct ⟨product⟩ s
  let (tests, s, testReport) := plan.weaveTests ⟨tests⟩ s
  ClassStore.write (Path.join path mode.productDirectory) mode product.classes
  ClassStore.write (Path.join path mode.testDirectory) mode tests.classes
  return (s, productReport ++ testReport)

/-- Weaves modules, in order. -/
def weaveModules (plan : Plan) (mode : OutputMode) :
    List String → Session → CommandM m Report
  | [], _ => return ∅
  | path :: rest, s => do
    let (s, report) ← weaveModule plan mode path s
    return report ++ (← weaveModules plan mode rest s)

/-- What is printed for a method that was rolled back. -/
def rollbackText (f : MethodFailure) : String :=
  f.signature ++ " rolled back by " ++ f.weaver ++ ": " ++ f.message

/-- Prints a report. -/
def printReport (display : Display) (modules : Nat) (report : Report) : CommandM m Unit := do
  display.header "Instrumentation"
  display.countRow "modules" modules
  display.countRow "methods" report.methods
  display.countRow "instrumented" report.instrumented
  display.countRow "skipped" report.skipped
  display.countRow "probes" report.probes
  report.failures.forM fun f => display.warning (rollbackText f)

/-- Weaves a project. -/
def perform (r : WeaveRequest) (display : Display) : CommandM m Unit := do
  let plan ← r.plan
  let modules ← ClassStore.modules r.project
  let report ← weaveModules plan r.mode modules ∅
  printReport display modules.length report
  if let some path := r.report then
    ensure (.unwritable path) (← Host.write path report.toJson.pretty)
  if report.isClean then display.success (toString report.probes ++ " probes inserted")

end WeaveRequest

end TraceWeave
