import TraceWeave.Console.Display
import TraceWeave.Console.Documents
import TraceWeave.Console.Error
/-!
# The command that summarizes a log
-/

namespace TraceWeave

variable {m : Type → Type} [Monad m] [Host m]

namespace SummaryRequest

/-- Prints a summary as rows, with a warning about records of no known kind. -/
def printSummary (file : String) (display : Display) (summary : LogSummary) : CommandM m Unit := do
  display.header file
  display.countRow "records" summary.records
  display.countRow "tests" summary.tests
  summary.counts.forM fun c => display.countRow c.1 c.2
  let unknown := summary.count .unknown
  if 0 < unknown then display.warning (toString unknown ++ " unrecognized records")

/-- Summarizes a log. -/
def perform (r : SummaryRequest) (display : Display) : CommandM m Unit := do
  let text ← orFail (.unreadable r.file) (← Host.read? r.file)
  let summary := LogSummary.ofLog text
  if r.asDocument then Host.printLine summary.toJson.pretty
  else printSummary r.file display summary

end SummaryRequest

end TraceWeave
