import TraceWeave.Trace.Record
/-!
# Summaries of trace logs

A log is summarized by counting its records by kind.  Lines without visible text are no records.
-/

namespace TraceWeave

/-- Adds a count to a table whose keys ascend without repetition. -/
def addCount (key : String) (n : Nat) : List (String × Nat) → List (String × Nat)
  | [] => [(key, n)]
  | (k, m) :: rest =>
    if key < k then (key, n) :: (k, m) :: rest
    else if key = k then (k, m + n) :: rest
    else (k, m) :: addCount key n rest

/-- The sums of counts by key, with ascending keys. -/
def sumByKey (counts : List (String × Nat)) : List (String × Nat) :=
  counts.foldl (fun table c => addCount c.1 c.2 table) []

/-- The record counts of a log. -/
structure LogSummary where
  /-- The number of records. -/
  records : Nat := 0
  /-- The number of tests that began. -/
  tests : Nat := 0
  /-- The number of records of each kind that occurs, by ascending name. -/
  counts : List (String × Nat) := []
deriving DecidableEq, Repr

namespace LogSummary

/-- The records of a log: its lines that are not blank. -/
def recordsOf (text : String) : List String :=
  ((Text.lines text.toList).filter fun l => !Text.allBlank l).map String.ofList

/-- The summary of a log. -/
def ofLog (text : String) : LogSummary :=
  let kinds := (recordsOf text).map Record.kind
  { records := kinds.length
    tests := kinds.count .testStart
    counts := sumByKey (kinds.map fun k => (k.name, 1)) }

/-- The number of records of a kind. -/
def count (s : LogSummary) (kind : EventKind) : Nat := (s.counts.lookup kind.name).getD 0

end LogSummary

end TraceWeave
