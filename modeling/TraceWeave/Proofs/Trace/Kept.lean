import TraceWeave.Trace.Recorder
import Mathlib.Data.List.Basic

/-!
# What becomes of kept records

A record that the recorder keeps waits in the buffer of its test case.  `Recorder.written` is what
was moved on from there, whether the sink has taken it yet or not, and each request moves it and the
buffer in one of three ways: it settles the buffer, it forgets the buffer, or it leaves the buffer
waiting (`Recorder.written_apply`, `Recorder.buffer_apply`).  So whether a record reaches the log is
decided by the first request after it that settles or forgets, and `Recorder.lines_of_history` says
what the log holds when everything that still waits is written in the end.
-/

namespace TraceWeave

namespace RecorderRequest

/-- The request moves the buffer to the batch. -/
def settles : RecorderRequest → Bool
  | .endTest _ | .flushLogs => true
  | _ => false

/-- The request empties the buffer. -/
def forgets : RecorderRequest → Bool
  | .reset | .beginTest _ => true
  | _ => false

theorem forgets_of_settles (q : RecorderRequest) (h : q.settles = true) : q.forgets = false := by
  cases q <;> first | rfl | cases h

/-- What waits in the buffer now is forgotten by what follows before anything settles it. -/
def forgotten : List RecorderRequest → Bool
  | [] => false
  | q :: rest => q.forgets || (!q.settles && forgotten rest)

/-- The request has nothing to do with the sink's readiness. -/
def sparesSink : RecorderRequest → Bool
  | .obstruct _ => false
  | _ => true

end RecorderRequest

namespace Recorder

/-- The records that were moved out of the buffer: those in the sink, then those that wait in the
batch. -/
def written (r : Recorder) : List String := r.sink.lines.toList ++ r.batch.entries.toList

/-- The record that a request makes the recorder keep, if it does. -/
def kept? (r : Recorder) : RecorderRequest → Option String
  | .raw record => if (r.recordRaw record).2 then some record else none
  | .event e => if (r.record e).2 then some e.encode else none
  | .beginTest test =>
    if (r.reset.record (.testStart test)).2 then some (Event.testStart test).encode else none
  | .endTest test =>
    if (r.record (.testEnd test)).2 then some (Event.testEnd test).encode else none
  | .reset | .flushLogs | .flush | .obstruct _ => none

/-- The records that the recorder keeps, in order, each with whether it is forgotten before it is
settled. -/
def history (r : Recorder) : List RecorderRequest → List (String × Bool)
  | [] => []
  | q :: rest =>
    (r.kept? q).toList.map (fun record => (record, !q.settles && RecorderRequest.forgotten rest)) ++
      (r.apply q).1.history rest

/-! ## One request -/

theorem recordRaw_cases (r : Recorder) (record : String) :
    (r.recordRaw record = (r, false)) ∨
      ∃ branches lines, r.recordRaw record =
        ({ r with
            seenBranches := branches, seenLines := lines,
            buffer := r.buffer.push record }, true) := by
  unfold recordRaw
  split
  · dsimp only
    split
    · exact .inl rfl
    · exact .inr ⟨_, _, rfl⟩
  · split
    · dsimp only
      split
      · exact .inl rfl
      · exact .inr ⟨_, _, rfl⟩
    · exact .inr ⟨_, _, rfl⟩

/-- A record that is kept goes to the end of the buffer. -/
theorem buffer_recordRaw (r : Recorder) (record : String) :
    (r.recordRaw record).1.buffer.toList =
      r.buffer.toList ++ (if (r.recordRaw record).2 then some record else none).toList := by
  rcases r.recordRaw_cases record with h | ⟨_, _, h⟩ <;> simp [h]

theorem written_recordRaw (r : Recorder) (record : String) :
    (r.recordRaw record).1.written = r.written := by
  rcases r.recordRaw_cases record with h | ⟨_, _, h⟩ <;> simp [h, written]

/-- Writing the batch moves records from the batch to the sink and no others. -/
theorem written_flush (r : Recorder) : r.flush.1.written = r.written := by
  unfold flush
  split
  · rfl
  · split
    · rfl
    · simp [written, Batch.flushed]

theorem buffer_flush (r : Recorder) : r.flush.1.buffer = r.buffer := by
  unfold flush
  split
  · rfl
  · split <;> rfl

theorem written_flushLogs (r : Recorder) :
    r.flushLogs.1.written = r.written ++ r.buffer.toList := by
  unfold flushLogs
  split
  · next h => simp [Array.isEmpty_iff.1 h]
  · dsimp only
    split
    · rw [written_flush]
      simp [written, Batch.extend]
    · simp [written, Batch.extend]

theorem buffer_flushLogs (r : Recorder) : r.flushLogs.1.buffer = #[] := by
  unfold flushLogs
  split
  · next h => exact Array.isEmpty_iff.1 h
  · dsimp only
    split
    · rw [buffer_flush]
    · rfl

/-- A request that settles moves the buffer on, with the record that it adds. -/
theorem written_apply (r : Recorder) (q : RecorderRequest) :
    (r.apply q).1.written =
      if q.settles then r.written ++ r.buffer.toList ++ (r.kept? q).toList else r.written := by
  cases q with
  | raw record => exact r.written_recordRaw record
  | event e => exact r.written_recordRaw _
  | reset => rfl
  | beginTest test => exact r.reset.written_recordRaw _
  | endTest test =>
    change (r.recordRaw _).1.flushLogs.1.written = _
    rw [written_flushLogs, written_recordRaw, buffer_recordRaw, ← List.append_assoc]
    rfl
  | flushLogs =>
    change r.flushLogs.1.written = _
    rw [written_flushLogs]
    exact (List.append_nil _).symm
  | flush => exact r.written_flush
  | obstruct refusing => rfl

/-- What waits in the buffer after a request. -/
theorem buffer_apply (r : Recorder) (q : RecorderRequest) :
    (r.apply q).1.buffer.toList = if q.settles then [] else
      (if q.forgets then [] else r.buffer.toList) ++ (r.kept? q).toList := by
  cases q with
  | raw record => exact r.buffer_recordRaw record
  | event e => exact r.buffer_recordRaw _
  | reset => rfl
  | beginTest test => exact r.reset.buffer_recordRaw _
  | endTest test =>
    change (r.recordRaw _).1.flushLogs.1.buffer.toList = _
    rw [buffer_flushLogs]
    rfl
  | flushLogs =>
    change r.flushLogs.1.buffer.toList = _
    rw [buffer_flushLogs]
    rfl
  | flush =>
    change r.flush.1.buffer.toList = _
    rw [buffer_flush]
    exact (List.append_nil _).symm
  | obstruct refusing => exact (List.append_nil _).symm

/-! ## Many requests -/

/-- The records that were moved on, and what still waits in the buffer. -/
theorem written_append_buffer_run (r : Recorder) (requests : List RecorderRequest) :
    (r.run requests).written ++ (r.run requests).buffer.toList =
      r.written ++ (if RecorderRequest.forgotten requests then [] else r.buffer.toList) ++
        ((r.history requests).filter fun e => !e.2).map (·.1) := by
  induction requests generalizing r with
  | nil => simp [run, history, RecorderRequest.forgotten]
  | cons q rest ih =>
    have hrun : r.run (q :: rest) = (r.apply q).1.run rest := rfl
    rw [hrun, ih, history, written_apply, buffer_apply, RecorderRequest.forgotten]
    cases hsettles : q.settles with
    | true => simp [q.forgets_of_settles hsettles, List.filter_map, Function.comp_def]
    | false =>
      cases hforgets : q.forgets <;> cases hlost : RecorderRequest.forgotten rest <;>
        simp [List.filter_map, Function.comp_def]

theorem refusing_flush (r : Recorder) : r.flush.1.sink.refusing = r.sink.refusing := by
  unfold flush
  split
  · rfl
  · split <;> rfl

theorem refusing_flushLogs (r : Recorder) : r.flushLogs.1.sink.refusing = r.sink.refusing := by
  unfold flushLogs
  split
  · rfl
  · dsimp only
    split
    · rw [refusing_flush]
    · rfl

theorem refusing_recordRaw (r : Recorder) (record : String) :
    (r.recordRaw record).1.sink.refusing = r.sink.refusing := by
  rcases r.recordRaw_cases record with h | ⟨_, _, h⟩ <;> rw [h]

theorem refusing_apply (r : Recorder) {q : RecorderRequest} (h : q.sparesSink = true) :
    (r.apply q).1.sink.refusing = r.sink.refusing := by
  cases q with
  | raw record => exact r.refusing_recordRaw record
  | event e => exact r.refusing_recordRaw _
  | reset => rfl
  | beginTest test => exact r.reset.refusing_recordRaw _
  | endTest test => exact (refusing_flushLogs _).trans (r.refusing_recordRaw _)
  | flushLogs => exact r.refusing_flushLogs
  | flush => exact r.refusing_flush
  | obstruct refusing => cases h

theorem refusing_run (r : Recorder) {requests : List RecorderRequest}
    (h : ∀ q ∈ requests, q.sparesSink = true) :
    (r.run requests).sink.refusing = r.sink.refusing := by
  induction requests generalizing r with
  | nil => rfl
  | cons q rest ih =>
    exact (ih _ fun p hp => h p (by simp [hp])).trans (r.refusing_apply (h q (by simp)))

/-- A sink that works takes everything that was moved on. -/
theorem lines_flush (r : Recorder) (h : r.sink.refusing = false) :
    r.flush.1.sink.lines.toList = r.written := by
  unfold flush
  split
  · next hempty => simp [written, Array.isEmpty_iff.1 hempty]
  · simp [h, written]

/-- After everything that waits was written to a sink that works, the log holds the records that
were kept, in order, without those that were forgotten. -/
theorem lines_of_history (threshold : Nat) {requests : List RecorderRequest}
    (h : ∀ q ∈ requests, q.sparesSink = true) :
    ((ofThreshold threshold).run (requests ++ [.flushLogs, .flush])).sink.lines.toList =
      (((ofThreshold threshold).history requests).filter fun e => !e.2).map (·.1) := by
  have hrun : (ofThreshold threshold).run (requests ++ [.flushLogs, .flush]) =
      ((ofThreshold threshold).run requests).flushLogs.1.flush.1 := by
    simp [run, apply]
  have hworks : ((ofThreshold threshold).run requests).flushLogs.1.sink.refusing = false :=
    (refusing_flushLogs _).trans (refusing_run _ h)
  rw [hrun, lines_flush _ hworks, written_flushLogs, written_append_buffer_run]
  simp [written, ofThreshold, Batch.ofThreshold]

end Recorder

end TraceWeave
