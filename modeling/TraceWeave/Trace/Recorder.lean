import TraceWeave.Trace.Record
/-!
# The recorder

Records wait in two places.  The records of the current test case are kept in a buffer, where
reached lines and checked branches are kept once.  When the test case ends they move to a batch,
and a batch that is due is written to the sink as a whole: the sink takes all of it or refuses it,
and what is refused stays in the batch.
-/

namespace TraceWeave

/-- Records that wait to be written together. -/
structure Batch where
  /-- The records. -/
  entries : Array String := #[]
  /-- The number of records that makes the batch due. -/
  threshold : Nat
  /-- How often the batch was written. -/
  flushes : Nat := 0
  /-- An empty batch is never due. -/
  threshold_pos : 1 ≤ threshold := by omega

namespace Batch

/-- An empty batch; a threshold of zero counts as one. -/
def ofThreshold (threshold : Nat) : Batch := { threshold := max threshold 1 }

/-- An empty batch with the usual threshold. -/
def default : Batch := ofThreshold 1000

/-- The number of records. -/
def size (b : Batch) : Nat := b.entries.size

/-- Whether the batch has no records. -/
def isEmpty (b : Batch) : Bool := b.entries.isEmpty

/-- Adds records. -/
def extend (b : Batch) (records : Array String) : Batch :=
  { b with entries := b.entries ++ records }

/-- Whether the batch has reached its threshold. -/
def isDue (b : Batch) : Bool := b.threshold ≤ b.size

/-- The empty batch after the records were written. -/
def flushed (b : Batch) : Batch := { b with entries := #[], flushes := b.flushes + 1 }

end Batch

/-- Where records are written. -/
structure Sink where
  /-- The lines written so far. -/
  lines : Array String := #[]
  /-- Whether the sink refuses what it is given. -/
  refusing : Bool := false

/-- The text of the lines that were written: a line feed closes each of them. -/
def Sink.text (s : Sink) : String := String.join (s.lines.toList.map (· ++ "\n"))

/-- What is asked of a recorder. -/
inductive RecorderRequest where
  /-- Keep a record as it is. -/
  | raw (record : String)
  /-- Keep the record of an event. -/
  | event (e : Event)
  /-- Forget the current test case. -/
  | reset
  /-- Begin a test case. -/
  | beginTest (test : String)
  /-- End a test case. -/
  | endTest (test : String)
  /-- Move the records of the test case to the batch. -/
  | flushLogs
  /-- Write the batch. -/
  | flush
  /-- From now on the sink refuses what it is given, or takes it. -/
  | obstruct (refusing : Bool)
deriving DecidableEq

/-- A recorder with its sink. -/
structure Recorder where
  /-- The records of the current test case. -/
  buffer : Array String := #[]
  /-- The keys of the branches that the test case has checked. -/
  seenBranches : List String := []
  /-- The keys of the lines that the test case has reached. -/
  seenLines : List String := []
  /-- The records that wait to be written. -/
  batch : Batch
  /-- Where the batch is written. -/
  sink : Sink := {}

namespace Recorder

/-- A fresh recorder. -/
def ofThreshold (threshold : Nat) : Recorder := { batch := .ofThreshold threshold }

/-- What marks the record of a checked branch. -/
def branchMark : String := "\"event\":\"SUBCONDITION_CHECKED\""

/-- What marks the record of a reached line. -/
def lineMark : String := "\"event\":\"EXERCISED\""

/-- Adds a record to the buffer. -/
def keep (r : Recorder) (record : String) : Recorder :=
  { r with buffer := r.buffer.push record }

/-- Takes a record; of the records of a branch, and of those of a line, only the first in a test
case is kept.  Returns whether the record was kept. -/
def recordRaw (r : Recorder) (record : String) : Recorder × Bool :=
  if Text.occursIn branchMark record then
    let key := Record.branchKey record
    if r.seenBranches.contains key then (r, false)
    else ({ r with seenBranches := key :: r.seenBranches }.keep record, true)
  else if Text.occursIn lineMark record then
    let key := Record.lineKey record
    if r.seenLines.contains key then (r, false)
    else ({ r with seenLines := key :: r.seenLines }.keep record, true)
  else (r.keep record, true)

/-- Takes an event. -/
def record (r : Recorder) (e : Event) : Recorder × Bool := r.recordRaw e.encode

/-- Forgets the current test case. -/
def reset (r : Recorder) : Recorder :=
  { r with buffer := #[], seenBranches := [], seenLines := [] }

/-- Forgets the current test case and marks the start of the next one. -/
def beginTest (r : Recorder) (test : String) : Recorder := (r.reset.record (.testStart test)).1

/-- Writes the batch.  Returns false if the sink refuses it; an empty batch is not offered. -/
def flush (r : Recorder) : Recorder × Bool :=
  if r.batch.isEmpty then (r, true)
  else if r.sink.refusing then (r, false)
  else
    ({ r with
        sink := { r.sink with lines := r.sink.lines ++ r.batch.entries }
        batch := r.batch.flushed }, true)

/-- Moves the records of the test case to the batch, and writes the batch if it is due then. -/
def flushLogs (r : Recorder) : Recorder × Bool :=
  if r.buffer.isEmpty then (r, true)
  else
    let moved := { r with buffer := #[], batch := r.batch.extend r.buffer }
    if moved.batch.isDue then moved.flush else (moved, true)

/-- Marks the end of the test case and moves its records to the batch. -/
def endTest (r : Recorder) (test : String) : Recorder × Bool :=
  (r.record (.testEnd test)).1.flushLogs

/-- Does what is asked.  Returns whether a record was kept, or whether the sink took what it was
given. -/
def apply (r : Recorder) : RecorderRequest → Recorder × Bool
  | .raw record => r.recordRaw record
  | .event e => r.record e
  | .reset => (r.reset, true)
  | .beginTest test => (r.beginTest test, true)
  | .endTest test => r.endTest test
  | .flushLogs => r.flushLogs
  | .flush => r.flush
  | .obstruct refusing => ({ r with sink := { r.sink with refusing } }, true)

/-- Does everything that is asked, in order. -/
def run (r : Recorder) (requests : List RecorderRequest) : Recorder :=
  requests.foldl (fun r request => (r.apply request).1) r

/-- The recorder at its end: what waits in the batch is offered to the sink a last time. -/
def close (r : Recorder) : Recorder := r.flush.1

end Recorder

end TraceWeave
