import TraceWeave.Proofs.Trace.Conservation
import TraceWeave.Proofs.Trace.RecordKeys

/-!
# What is recorded once

The recorder remembers keys until it forgets the test case.  Moving records on, writing them and
being refused by the sink change nothing of what it remembers, and it remembers exactly the keys of
what was recorded since (`Recorder.remembers_run`).  As legible events have keys of their own, an
event is turned away exactly if it is a reached line or a checked branch that was recorded before in
the same test case (`Recorder.record_eq_false_iff`).
-/

namespace TraceWeave

namespace RecorderRequest

/-- The record that a request offers to the test case. -/
def record? : RecorderRequest → Option String
  | .raw record => some record
  | .event e => some e.encode
  | .beginTest test => some (Event.testStart test).encode
  | .endTest test => some (Event.testEnd test).encode
  | .reset | .flushLogs | .flush | .obstruct _ => none

/-- What was asked since the test case was last forgotten. -/
def sinceForgotten (requests : List RecorderRequest) : List RecorderRequest :=
  requests.rtakeWhile fun q => !q.forgets

/-- An event that is recorded is legible, and in the name of a test that begins or ends the recorder
finds none of its marks. -/
def Legible : RecorderRequest → Prop
  | .raw _ => False
  | .event e => e.Legible
  | .beginTest test | .endTest test => Recorder.Overlooks test
  | .reset | .flushLogs | .flush | .obstruct _ => True

instance : DecidablePred Legible
  | .raw _ => inferInstanceAs (Decidable False)
  | .event e => inferInstanceAs (Decidable e.Legible)
  | .beginTest test | .endTest test => inferInstanceAs (Decidable (Recorder.Overlooks test))
  | .reset | .flushLogs | .flush | .obstruct _ => inferInstanceAs (Decidable True)

end RecorderRequest

namespace Recorder

/-- The recorder has the key in the set for its kind. -/
def Remembers (r : Recorder) : EventKind × String → Prop
  | (.subconditionChecked, key) => key ∈ r.seenBranches
  | (.exercised, key) => key ∈ r.seenLines
  | _ => False

theorem SameTestCase.remembers_iff {r r' : Recorder} (h : r.SameTestCase r')
    (key : EventKind × String) : r'.Remembers key ↔ r.Remembers key := by
  obtain ⟨-, hbranches, hlines⟩ := h
  unfold Remembers
  rw [hbranches, hlines]

/-! ## One request -/

/-- A record is turned away if its key is remembered. -/
theorem recordRaw_eq_false_iff (r : Recorder) (record : String) :
    (r.recordRaw record).2 = false ↔ ∃ key, onceKey? record = some key ∧ r.Remembers key := by
  unfold recordRaw onceKey?
  split
  · dsimp only
    split <;> simp_all [Remembers]
  · split
    · dsimp only
      split <;> simp_all [Remembers]
    · simp

/-- After a record was offered, its key is remembered. -/
theorem remembers_recordRaw (r : Recorder) (record : String) (key : EventKind × String) :
    (r.recordRaw record).1.Remembers key ↔ r.Remembers key ∨ onceKey? record = some key := by
  obtain ⟨kind, text⟩ := key
  unfold recordRaw onceKey?
  split
  · dsimp only
    split <;> cases kind <;> grind [Remembers, keep]
  · split
    · dsimp only
      split <;> cases kind <;> grind [Remembers, keep]
    · simp [Remembers, keep]

/-- Only a request that forgets the test case takes a key from the recorder. -/
theorem remembers_apply (r : Recorder) (q : RecorderRequest) (key : EventKind × String) :
    (r.apply q).1.Remembers key ↔
      (q.forgets = false ∧ r.Remembers key) ∨
        ∃ record, q.record? = some record ∧ onceKey? record = some key := by
  have hreset : ¬ r.reset.Remembers key := by
    obtain ⟨kind, text⟩ := key
    cases kind <;> simp [Remembers, reset]
  have hmoved (s : Recorder) : s.flushLogs.1.Remembers key ↔ s.Remembers key :=
    (SameTestCase.of_flushLogs s).remembers_iff key
  cases q with
  | raw record =>
    simp [apply, remembers_recordRaw, RecorderRequest.forgets, RecorderRequest.record?]
  | event e =>
    simp [apply, record, remembers_recordRaw, RecorderRequest.forgets, RecorderRequest.record?]
  | reset => simp [apply, hreset, RecorderRequest.forgets, RecorderRequest.record?]
  | beginTest test =>
    simp [apply, beginTest, record, remembers_recordRaw, hreset, RecorderRequest.forgets,
      RecorderRequest.record?]
  | endTest test =>
    simp [apply, endTest, record, hmoved, remembers_recordRaw, RecorderRequest.forgets,
      RecorderRequest.record?]
  | flushLogs => simp [apply, hmoved, RecorderRequest.forgets, RecorderRequest.record?]
  | flush =>
    simp [apply, (SameTestCase.of_flush r).remembers_iff key, RecorderRequest.forgets,
      RecorderRequest.record?]
  | obstruct refusing =>
    have hsame : r.SameTestCase { r with sink := { r.sink with refusing } } := ⟨rfl, rfl, rfl⟩
    simp [apply, hsame.remembers_iff key, RecorderRequest.forgets, RecorderRequest.record?]

/-! ## Many requests -/

theorem onceKey?_of_overlooks {record : String} (h : Overlooks record) :
    onceKey? record = none := by
  rw [onceKey?, h.1, h.2]
  rfl

/-- Of legible requests, only events bring keys. -/
theorem exists_record?_iff {q : RecorderRequest} (h : q.Legible) (key : EventKind × String) :
    (∃ record, q.record? = some record ∧ onceKey? record = some key) ↔
      ∃ e, q = .event e ∧ e.onceKey? = some key := by
  cases q with
  | raw record => cases h
  | event e => simp [RecorderRequest.record?, onceKey?_encode h]
  | beginTest test =>
    simp [RecorderRequest.record?, onceKey?_of_overlooks (overlooks_testStart h)]
  | endTest test =>
    simp [RecorderRequest.record?, onceKey?_of_overlooks (overlooks_testEnd h)]
  | reset | flushLogs | flush | obstruct _ => simp [RecorderRequest.record?]

/-- What is remembered are the keys of the events since the test case was last forgotten. -/
theorem remembers_run (threshold : Nat) {requests : List RecorderRequest}
    (h : ∀ q ∈ requests, q.Legible) (key : EventKind × String) :
    ((ofThreshold threshold).run requests).Remembers key ↔
      ∃ e, .event e ∈ RecorderRequest.sinceForgotten requests ∧ e.onceKey? = some key := by
  induction requests using List.reverseRecOn with
  | nil =>
    obtain ⟨kind, text⟩ := key
    cases kind <;> simp [run, Remembers, ofThreshold, RecorderRequest.sinceForgotten]
  | append_singleton requests q ih =>
    have hbefore := ih fun p hp => h p (by simp [hp])
    have hrun : (ofThreshold threshold).run (requests ++ [q]) =
        (((ofThreshold threshold).run requests).apply q).1 := by simp [run]
    rw [hrun, remembers_apply, hbefore, exists_record?_iff (h q (by simp))]
    cases hforgets : q.forgets with
    | true =>
      have hnone : ∀ e, q ≠ .event e := by
        rintro e rfl
        cases hforgets
      simp [RecorderRequest.sinceForgotten, hforgets, hnone]
    | false =>
      have hsince : RecorderRequest.sinceForgotten (requests ++ [q]) =
          RecorderRequest.sinceForgotten requests ++ [q] :=
        List.rtakeWhile_concat_pos _ _ _ (by simp [hforgets])
      simp only [hsince, true_and, List.mem_append, List.mem_singleton]
      constructor
      · rintro (⟨e, hmem, hkey⟩ | ⟨e, rfl, hkey⟩)
        · exact ⟨e, .inl hmem, hkey⟩
        · exact ⟨e, .inr rfl, hkey⟩
      · rintro ⟨e, hmem | hmem, hkey⟩
        · exact .inl ⟨e, hmem, hkey⟩
        · exact .inr ⟨e, hmem.symm, hkey⟩

/-! ## Which events are turned away -/

/-- An event is turned away exactly if it is of a kind that is recorded once and the same event was
recorded since the test case was last forgotten; any other event is added to the buffer.  So no
event takes the key of another, and moving or writing records does not free a key. -/
theorem record_eq_false_iff (threshold : Nat) {requests : List RecorderRequest}
    (h : ∀ q ∈ requests, q.Legible) {e : Event} (he : e.Legible) :
    let r := (ofThreshold threshold).run requests
    ((r.record e).2 = false ↔
        e.isOnce = true ∧ .event e ∈ RecorderRequest.sinceForgotten requests) ∧
      (r.record e).1.buffer.toList =
        r.buffer.toList ++ (if (r.record e).2 then [e.encode] else []) ∧
      (∀ other : Event, other.Legible → e.isOnce = true →
        onceKey? other.encode = onceKey? e.encode → other = e) ∧
      (r.flushLogs.1.record e).2 = (r.record e).2 ∧ (r.flush.1.record e).2 = (r.record e).2 := by
  intro r
  have hturned (s : Recorder) :
      (s.record e).2 = false ↔ ∃ key, e.onceKey? = some key ∧ s.Remembers key := by
    rw [← onceKey?_encode he]
    exact s.recordRaw_eq_false_iff e.encode
  have hsame {s : Recorder} (hs : ∀ key, s.Remembers key ↔ r.Remembers key) :
      (s.record e).2 = (r.record e).2 := by
    rw [Bool.eq_iff_iff, ← Bool.not_eq_false, ← Bool.not_eq_false, hturned, hturned]
    simp only [hs]
  refine ⟨?_, ?_, ?_, hsame (SameTestCase.of_flushLogs r).remembers_iff,
    hsame (SameTestCase.of_flush r).remembers_iff⟩
  · rw [hturned, ← Event.isSome_onceKey?, Option.isSome_iff_exists]
    constructor
    · rintro ⟨key, hkey, hseen⟩
      obtain ⟨other, hmem, hother⟩ := (remembers_run threshold h key).1 hseen
      exact ⟨⟨key, hkey⟩, Event.onceKey?_injective hother hkey ▸ hmem⟩
    · rintro ⟨⟨key, hkey⟩, hmem⟩
      exact ⟨key, hkey, (remembers_run threshold h key).2 ⟨e, hmem, hkey⟩⟩
  · refine (r.buffer_recordRaw e.encode).trans (congrArg _ ?_)
    change (if (r.record e).2 = true then some e.encode else none).toList = _
    split <;> rfl
  · intro other hother honce hkeys
    rw [onceKey?_encode hother, onceKey?_encode he] at hkeys
    obtain ⟨key, hkey⟩ := Option.isSome_iff_exists.1 ((Event.isSome_onceKey? e).trans honce)
    exact Event.onceKey?_injective (hkeys.trans hkey) hkey

/-- A line of a file with a colon in its name is turned away the second time, after its record was
moved on and refused by the sink; the branch whose key has the same text is not. -/
theorem record_eq_false_of_colon :
    ((((ofThreshold 1).run [.beginTest "t, \"u\"", .event (.exercised "a:1" 2), .obstruct true,
        .flushLogs, .flush]).record (.exercised "a:1" 2)).2 = false) ∧
      (((ofThreshold 1).run [.event (.exercised "a:1" 2)]).record
        (.subconditionChecked "a" 1 2)).2 ≠ false :=
  ⟨(record_eq_false_iff 1 (by decide) (by decide)).1.2 (by decide),
    fun h => absurd ((record_eq_false_iff 1 (by decide) (by decide)).1.1 h) (by decide)⟩

end Recorder

end TraceWeave
