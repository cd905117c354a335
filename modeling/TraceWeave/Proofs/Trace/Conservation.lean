import TraceWeave.Proofs.Trace.Kept
import Mathlib.Data.List.DropRight

/-!
# Nothing is lost between the test cases and the log

A record passes three places: the buffer of its test case, the batch, and the sink.  What is handed
on is counted here at the two borders.  `Recorder.movedBuffers` lists the buffers as they stood
whenever the records of a test case were moved to the batch, and `Recorder.appends` lists what the
sink took, seen from the sink alone.  Whatever is asked of a recorder, and whenever the sink refuses
what it is offered, the sink's lines followed by the batch are the moved buffers in order
(`Recorder.written_run`), the lines are the appends in order and the batch counts them
(`Recorder.tally_run`), and the buffer holds what was added to the test case since it was last
dropped or moved on (`Recorder.buffer_run`).
-/

namespace TraceWeave

/-- What happens to the records of a test case. -/
inductive Passage where
  /-- A record is added. -/
  | added (record : String)
  /-- They are forgotten. -/
  | dropped
  /-- They are moved to the batch. -/
  | moved
deriving DecidableEq

namespace Passage

/-- The record that is added. -/
def record? : Passage → Option String
  | added record => some record
  | dropped | moved => none

/-- The records that were added after the test case was last dropped or moved on. -/
def sinceLast (passages : List Passage) : List String :=
  (passages.rtakeWhile (·.record?.isSome)).filterMap record?

theorem sinceLast_append_added (passages : List Passage) (kept : Option String) :
    sinceLast (passages ++ kept.toList.map added) = sinceLast passages ++ kept.toList := by
  cases kept with
  | none => simp
  | some record =>
    simp [sinceLast, record?]

theorem sinceLast_concat_of_none (passages : List Passage) {e : Passage} (h : e.record? = none) :
    sinceLast (passages ++ [e]) = [] := by
  simp [sinceLast, h]

end Passage

namespace Recorder

/-- What a request does to the records of the test case: beginning a test case drops them and adds
the start record, ending it adds the end record and moves them on. -/
def passage (r : Recorder) (q : RecorderRequest) : List Passage :=
  (if q.forgets then [.dropped] else []) ++ (r.kept? q).toList.map .added ++
    (if q.settles then [.moved] else [])

/-- What the requests do to the records of the test case, in order. -/
def passages (r : Recorder) : List RecorderRequest → List Passage
  | [] => []
  | q :: rest => r.passage q ++ (r.apply q).1.passages rest

/-- The buffer that a request moves to the batch, as it stands then. -/
def movedBuffer? (r : Recorder) : RecorderRequest → Option (List String)
  | .flushLogs => some r.buffer.toList
  | .endTest test => some (r.record (.testEnd test)).1.buffer.toList
  | .raw _ | .event _ | .reset | .beginTest _ | .flush | .obstruct _ => none

/-- The buffers that the requests move to the batch, in order. -/
def movedBuffers (r : Recorder) : List RecorderRequest → List (List String)
  | [] => []
  | q :: rest => (r.movedBuffer? q).toList ++ (r.apply q).1.movedBuffers rest

/-- The lines by which a request lengthens the log. -/
def appended (r : Recorder) (q : RecorderRequest) : List String :=
  (r.apply q).1.sink.lines.toList.drop r.sink.lines.size

/-- What the sink takes while the requests are met, in order; a request that leaves the log as it is
does not count. -/
def appends (r : Recorder) : List RecorderRequest → List (List String)
  | [] => []
  | q :: rest => [r.appended q].filter (· ≠ []) ++ (r.apply q).1.appends rest

/-! ## The buffer -/

theorem sinceLast_passage (r : Recorder) (before : List Passage) (q : RecorderRequest) :
    Passage.sinceLast (before ++ r.passage q) =
      if q.settles then []
      else (if q.forgets then [] else Passage.sinceLast before) ++ (r.kept? q).toList := by
  cases hsettles : q.settles with
  | true =>
    rw [passage, hsettles, if_pos rfl, ← List.append_assoc,
      Passage.sinceLast_concat_of_none _ rfl, if_pos rfl]
  | false =>
    rw [passage, hsettles, if_neg Bool.false_ne_true, List.append_nil, ← List.append_assoc,
      Passage.sinceLast_append_added, if_neg Bool.false_ne_true]
    cases q.forgets with
    | true => rw [if_pos rfl, if_pos rfl, Passage.sinceLast_concat_of_none _ rfl]
    | false => rw [if_neg Bool.false_ne_true, if_neg Bool.false_ne_true, List.append_nil]

/-- The buffer holds what was added since the test case was last dropped or moved on. -/
theorem buffer_run (r : Recorder) (before : List Passage)
    (h : r.buffer.toList = Passage.sinceLast before) (requests : List RecorderRequest) :
    (r.run requests).buffer.toList = Passage.sinceLast (before ++ r.passages requests) := by
  induction requests generalizing r before with
  | nil => simpa [run, passages] using h
  | cons q rest ih =>
    have hstep : (r.apply q).1.buffer.toList = Passage.sinceLast (before ++ r.passage q) := by
      rw [buffer_apply, sinceLast_passage, h]
    have hrun := ih _ _ hstep
    rwa [List.append_assoc] at hrun

/-! ## The border between the test case and the batch -/

/-- What a request moves on is the buffer as it stands. -/
theorem flatten_movedBuffer? (r : Recorder) (q : RecorderRequest) :
    (r.movedBuffer? q).toList.flatten =
      if q.settles then r.buffer.toList ++ (r.kept? q).toList else [] := by
  cases q with
  | endTest test =>
    change [(r.recordRaw _).1.buffer.toList].flatten = _
    rw [List.flatten_singleton, buffer_recordRaw]
    rfl
  | flushLogs => exact (List.flatten_singleton).trans (List.append_nil _).symm
  | raw _ | event _ | reset | beginTest _ | flush | obstruct _ => rfl

/-- The sink's lines followed by the batch are the moved buffers in order. -/
theorem written_run (r : Recorder) (requests : List RecorderRequest) :
    (r.run requests).written = r.written ++ (r.movedBuffers requests).flatten := by
  induction requests generalizing r with
  | nil => simp [run, movedBuffers]
  | cons q rest ih =>
    have hrun : (r.run (q :: rest)).written = _ := ih (r.apply q).1
    rw [hrun, written_apply, movedBuffers, List.flatten_append, flatten_movedBuffer?]
    cases q.settles <;> simp

/-! ## The border between the batch and the sink -/

/-- Nothing was written, or one batch that is not empty was written and counted. -/
def WritesOnce (r r' : Recorder) : Prop :=
  (r'.sink.lines = r.sink.lines ∧ r'.batch.flushes = r.batch.flushes) ∨
    ∃ records : Array String, records ≠ #[] ∧
      r'.sink.lines = r.sink.lines ++ records ∧ r'.batch.flushes = r.batch.flushes + 1

theorem writesOnce_flush (r : Recorder) : r.WritesOnce r.flush.1 := by
  unfold flush
  split
  · exact .inl ⟨rfl, rfl⟩
  · next hsome =>
    split
    · exact .inl ⟨rfl, rfl⟩
    · exact .inr ⟨r.batch.entries, fun h => hsome (Array.isEmpty_iff.2 h), rfl, rfl⟩

theorem writesOnce_flushLogs (r : Recorder) : r.WritesOnce r.flushLogs.1 := by
  unfold flushLogs
  split
  · exact .inl ⟨rfl, rfl⟩
  · dsimp only
    split
    · exact writesOnce_flush { r with buffer := #[], batch := r.batch.extend r.buffer }
    · exact .inl ⟨rfl, rfl⟩

theorem keeps_recordRaw (r : Recorder) (record : String) :
    (r.recordRaw record).1.sink = r.sink ∧ (r.recordRaw record).1.batch = r.batch := by
  rcases r.recordRaw_cases record with h | ⟨_, _, h⟩ <;> rw [h] <;> exact ⟨rfl, rfl⟩

theorem apply_beginTest (r : Recorder) (test : String) :
    (r.apply (.beginTest test)).1 = (r.reset.recordRaw (Event.testStart test).encode).1 := rfl

theorem apply_endTest (r : Recorder) (test : String) :
    (r.apply (.endTest test)).1 = (r.recordRaw (Event.testEnd test).encode).1.flushLogs.1 := rfl

/-- A request writes at most once. -/
theorem writesOnce_apply (r : Recorder) (q : RecorderRequest) : r.WritesOnce (r.apply q).1 := by
  have hkept (s : Recorder) (record : String) : s.WritesOnce (s.recordRaw record).1 := by
    obtain ⟨hsink, hbatch⟩ := s.keeps_recordRaw record
    exact .inl ⟨by rw [hsink], by rw [hbatch]⟩
  cases q with
  | raw record => exact hkept r record
  | event e => exact hkept r _
  | reset => exact .inl ⟨rfl, rfl⟩
  | beginTest test =>
    rw [apply_beginTest]
    exact hkept r.reset _
  | endTest test =>
    obtain ⟨hsink, hbatch⟩ := r.keeps_recordRaw (Event.testEnd test).encode
    have h := (r.recordRaw (Event.testEnd test).encode).1.writesOnce_flushLogs
    rw [WritesOnce, hsink, hbatch] at h
    rw [apply_endTest]
    exact h
  | flushLogs => exact r.writesOnce_flushLogs
  | flush => exact r.writesOnce_flush
  | obstruct refusing => exact .inl ⟨rfl, rfl⟩

/-- A request lengthens the log by one append at most, and the batch counts it. -/
theorem tally_apply (r : Recorder) (q : RecorderRequest) :
    (r.apply q).1.sink.lines.toList =
        r.sink.lines.toList ++ ([r.appended q].filter (· ≠ [])).flatten ∧
      (r.apply q).1.batch.flushes =
        r.batch.flushes + ([r.appended q].filter (· ≠ [])).length := by
  unfold appended
  rcases r.writesOnce_apply q with ⟨hlines, hflushes⟩ | ⟨records, hsome, hlines, hflushes⟩
  · simp [hlines, hflushes]
  · have hne : records.toList ≠ [] := fun h => hsome (Array.toList_eq_nil_iff.1 h)
    simp [hlines, hflushes, hsome]

/-- The log grows by the appends in order, and the batch counts them. -/
theorem tally_run (r : Recorder) (requests : List RecorderRequest) :
    (r.run requests).sink.lines.toList =
        r.sink.lines.toList ++ (r.appends requests).flatten ∧
      (r.run requests).batch.flushes = r.batch.flushes + (r.appends requests).length := by
  induction requests generalizing r with
  | nil => simp [run, appends]
  | cons q rest ih =>
    obtain ⟨hlines, hflushes⟩ := r.tally_apply q
    obtain ⟨hlines', hflushes'⟩ := ih (r.apply q).1
    constructor
    · calc
        _ = _ := hlines'
        _ = _ := by rw [hlines, appends, List.flatten_append, List.append_assoc]
    · calc
        _ = _ := hflushes'
        _ = _ := by rw [hflushes, appends, List.length_append, Nat.add_assoc]

/-! ## What the test cases do not depend on -/

/-- The recorders have the same test case, whatever waits in their batches and whatever their sinks
hold. -/
def SameTestCase (r r' : Recorder) : Prop :=
  r'.buffer = r.buffer ∧ r'.seenBranches = r.seenBranches ∧ r'.seenLines = r.seenLines

theorem SameTestCase.of_flush (r : Recorder) : r.SameTestCase r.flush.1 := by
  unfold flush
  split
  · exact ⟨rfl, rfl, rfl⟩
  · split <;> exact ⟨rfl, rfl, rfl⟩

/-- Moving the buffer on leaves nothing in it, and forgets no key. -/
theorem SameTestCase.of_flushLogs (r : Recorder) :
    ({ r with buffer := #[] } : Recorder).SameTestCase r.flushLogs.1 := by
  unfold flushLogs
  split
  · next h => exact ⟨Array.isEmpty_iff.1 h, rfl, rfl⟩
  · dsimp only
    split
    · exact .of_flush { r with buffer := #[], batch := r.batch.extend r.buffer }
    · exact ⟨rfl, rfl, rfl⟩

namespace SameTestCase

variable {r r' r'' : Recorder}

theorem symm (h : r.SameTestCase r') : r'.SameTestCase r := ⟨h.1.symm, h.2.1.symm, h.2.2.symm⟩

theorem trans (h : r.SameTestCase r') (h' : r'.SameTestCase r'') : r.SameTestCase r'' :=
  ⟨h'.1.trans h.1, h'.2.1.trans h.2.1, h'.2.2.trans h.2.2⟩

/-- Whether a record is kept is decided by the test case. -/
theorem recordRaw (h : r.SameTestCase r') (record : String) :
    (r.recordRaw record).1.SameTestCase (r'.recordRaw record).1 := by
  obtain ⟨hbuffer, hbranches, hlines⟩ := h
  unfold Recorder.recordRaw
  rw [hbranches, hlines]
  split
  · dsimp only
    split
    · exact ⟨hbuffer, hbranches, hlines⟩
    · exact ⟨congrArg (·.push record) hbuffer, rfl, rfl⟩
  · split
    · dsimp only
      split
      · exact ⟨hbuffer, hbranches, hlines⟩
      · exact ⟨congrArg (·.push record) hbuffer, rfl, rfl⟩
    · exact ⟨congrArg (·.push record) hbuffer, hbranches, hlines⟩

theorem flushLogs (h : r.SameTestCase r') : r.flushLogs.1.SameTestCase r'.flushLogs.1 :=
  have hempty :
      ({ r with buffer := #[] } : Recorder).SameTestCase { r' with buffer := #[] } :=
    ⟨rfl, h.2.1, h.2.2⟩
  (of_flushLogs r).symm.trans (hempty.trans (of_flushLogs r'))

theorem apply (h : r.SameTestCase r') (q : RecorderRequest) :
    (r.apply q).1.SameTestCase (r'.apply q).1 := by
  cases q with
  | raw record => exact h.recordRaw record
  | event e => exact h.recordRaw _
  | reset => exact ⟨rfl, rfl, rfl⟩
  | beginTest test =>
    have hreset : r.reset.SameTestCase r'.reset := ⟨rfl, rfl, rfl⟩
    rw [apply_beginTest, apply_beginTest]
    exact hreset.recordRaw _
  | endTest test =>
    rw [apply_endTest, apply_endTest]
    exact (h.recordRaw _).flushLogs
  | flushLogs => exact h.flushLogs
  | flush => exact (of_flush r).symm.trans (h.trans (of_flush r'))
  | obstruct refusing => exact h

theorem movedBuffer? (h : r.SameTestCase r') (q : RecorderRequest) :
    r'.movedBuffer? q = r.movedBuffer? q := by
  cases q with
  | endTest test => exact congrArg (fun a => some a.toList) (h.recordRaw _).1
  | flushLogs => exact congrArg (fun a => some a.toList) h.1
  | raw _ | event _ | reset | beginTest _ | flush | obstruct _ => rfl

/-- The buffers that are moved on do not depend on what the sink refuses. -/
theorem movedBuffers (h : r.SameTestCase r') (requests : List RecorderRequest) :
    r'.movedBuffers (requests.filter (·.sparesSink)) = r.movedBuffers requests := by
  induction requests generalizing r r' with
  | nil => rfl
  | cons q rest ih =>
    cases hsink : q.sparesSink with
    | true =>
      rw [List.filter_cons_of_pos hsink, Recorder.movedBuffers, Recorder.movedBuffers,
        h.movedBuffer?, ih (h.apply q)]
    | false =>
      obtain ⟨refusing, rfl⟩ : ∃ refusing, q = .obstruct refusing := by
        cases q <;> first | exact ⟨_, rfl⟩ | cases hsink
      rw [List.filter_cons_of_neg (by simp [hsink])]
      exact ih h

end SameTestCase

/-! ## From the test cases to the log -/

/-- With a sink that works, what is left of the batch is written when the recorder ends. -/
theorem lines_close_obstruct (r : Recorder) :
    (r.run [.obstruct false]).close.sink.lines.toList = r.written :=
  lines_flush { r with sink := { r.sink with refusing := false } } rfl

/-- Nothing that was handed to the batch is lost, doubled or moved past another record, whatever is
asked of the recorder and whenever the sink refuses: the lines of the sink followed by the batch are
the moved buffers, the buffer holds what was added since the test case was last dropped or moved on,
and the batch counts the appends, of which the lines consist.  When the recorder ends with a sink
that works, the log is all of the moved buffers: the log that any other threshold gives with a sink
that never refused. -/
theorem conserves_records (threshold : Nat) (requests : List RecorderRequest) :
    let fresh := ofThreshold threshold
    let r := fresh.run requests
    r.sink.lines.toList ++ r.batch.entries.toList = (fresh.movedBuffers requests).flatten ∧
      r.buffer.toList = Passage.sinceLast (fresh.passages requests) ∧
      r.sink.lines.toList = (fresh.appends requests).flatten ∧
      r.batch.flushes = (fresh.appends requests).length ∧
      (r.run [.obstruct false]).close.sink.lines.toList = (fresh.movedBuffers requests).flatten ∧
      ∀ other, (r.run [.obstruct false]).close.sink.lines =
        ((ofThreshold other).run (requests.filter (·.sparesSink))).close.sink.lines := by
  intro fresh r
  have hwritten (n : Nat) (qs : List RecorderRequest) :
      ((ofThreshold n).run qs).written = ((ofThreshold n).movedBuffers qs).flatten :=
    ((ofThreshold n).written_run qs).trans (List.nil_append _)
  have htally := fresh.tally_run requests
  have hlog : (r.run [.obstruct false]).close.sink.lines.toList =
      (fresh.movedBuffers requests).flatten :=
    r.lines_close_obstruct.trans (hwritten threshold requests)
  refine ⟨hwritten threshold requests, fresh.buffer_run [] rfl requests,
    htally.1.trans (List.nil_append _), htally.2.trans (Nat.zero_add _), hlog, fun other => ?_⟩
  have hworks : ((ofThreshold other).run (requests.filter (·.sparesSink))).sink.refusing = false :=
    refusing_run _ fun q hq => (List.mem_filter.1 hq).2
  have hother : fresh.SameTestCase (ofThreshold other) := ⟨rfl, rfl, rfl⟩
  apply Array.toList_inj.1
  calc
    _ = _ := hlog
    _ = _ := congrArg List.flatten (hother.movedBuffers requests).symm
    _ = _ := (hwritten other _).symm
    _ = _ := (lines_flush _ hworks).symm

end Recorder

end TraceWeave
