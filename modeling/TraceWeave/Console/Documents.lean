import TraceWeave.Json.Printer
import TraceWeave.Trace.Summary
import TraceWeave.Weave.Report
/-!
# Reports and summaries as documents
-/

namespace TraceWeave

open Json

/-- The document of a table of counts. -/
def countsJson (counts : List (String × Nat)) : Json :=
  record (counts.map fun c => (c.1, .ofNat c.2))

/-- The document of a failure. -/
def MethodFailure.toJson (f : MethodFailure) : Json :=
  record [("signature", .string f.signature), ("transformer", .string f.weaver),
    ("message", .string f.message)]

/-- The document of a report. -/
def Report.toJson (r : Report) : Json :=
  record [("methods", .ofNat r.methods), ("instrumented", .ofNat r.instrumented),
    ("skipped", .ofNat r.skipped), ("probes", .ofNat r.probes),
    ("probes_by_class", countsJson r.probesByClass), ("skip_reasons", countsJson r.skipReasons),
    ("failures", .array (r.failures.map MethodFailure.toJson))]

/-- The document of a summary. -/
def LogSummary.toJson (s : LogSummary) : Json :=
  record [("records", .ofNat s.records), ("tests", .ofNat s.tests),
    ("counts", countsJson s.counts)]

end TraceWeave
