import TraceWeave.Proofs.Trace.Kept
import TraceWeave.Proofs.Trace.Records

/-!
# The markers in a log

A request that marks the start or the end of a test leaves a line of its own in the log, unless the
line is forgotten.  An end always settles its own line.  A start is forgotten exactly if the next
marker is a start too (`Recorder.markers_log`), and so the log shows the markers of tests as they
were offered if those of different tests do not overlap.

All this is for tests in whose names the recorder does not find its marks of lines and branches: it
would take the markers of others for records of a line or a branch, and keep only the first.
-/

namespace TraceWeave

/-! ## Markers among requests -/

namespace RecorderRequest

/-- A request that marks the start or the end of a test. -/
def isMarker : RecorderRequest → Bool
  | .beginTest _ | .endTest _ => true
  | _ => false

/-- A request that marks the end of a test. -/
def isEnd : RecorderRequest → Bool
  | .endTest _ => true
  | _ => false

end RecorderRequest

/-- The markers among requests. -/
def markersOf (requests : List RecorderRequest) : List RecorderRequest :=
  requests.filter RecorderRequest.isMarker

@[simp] theorem markersOf_nil : markersOf [] = [] := rfl

@[simp] theorem markersOf_append (l l' : List RecorderRequest) :
    markersOf (l ++ l') = markersOf l ++ markersOf l' := List.filter_append ..

/-- Markers in which every start has its end, nested like brackets. -/
inductive Nested : List RecorderRequest → Prop
  | nil : Nested []
  | append {l l' : List RecorderRequest} (h : Nested l) (h' : Nested l') : Nested (l ++ l')
  | test (name : String) {l : List RecorderRequest} (h : Nested l) :
      Nested (.beginTest name :: l ++ [.endTest name])

/-- The number of ends among requests. -/
def endsIn (requests : List RecorderRequest) : Nat := requests.countP RecorderRequest.isEnd

@[simp] theorem endsIn_append (l l' : List RecorderRequest) :
    endsIn (l ++ l') = endsIn l + endsIn l' := List.countP_append

theorem endsIn_cons (q : RecorderRequest) (l : List RecorderRequest) :
    endsIn (q :: l) = endsIn l + if q.isEnd then 1 else 0 := List.countP_cons ..

theorem Nested.endsIn_pos {l : List RecorderRequest} (h : Nested l) (hne : l ≠ []) :
    0 < endsIn l := by
  induction h with
  | nil => exact absurd rfl hne
  | @append l l' _ _ ih ih' =>
    rw [endsIn_append]
    by_cases hl : l = []
    · have := ih' (by simpa [hl] using hne)
      omega
    · have := ih hl
      omega
  | test name _ _ =>
    rw [endsIn_append]
    exact Nat.lt_add_left _ Nat.one_pos

/-- The markers of tests that run one after another. -/
def pairsOf (tests : List String) : List RecorderRequest :=
  tests.flatMap fun test => [.beginTest test, .endTest test]

theorem endsIn_pairsOf (tests : List String) : endsIn (pairsOf tests) = tests.length := by
  induction tests with
  | nil => rfl
  | cons test rest ih =>
    rw [pairsOf, List.flatMap_cons, endsIn_append, ← pairsOf, ih, List.length_cons]
    exact Nat.add_comm 1 _

/-! ## Markers among records -/

namespace Record

/-- A record that marks the start or the end of a test. -/
def isMarker (record : String) : Bool := kind record = .testStart || kind record = .testEnd

theorem isMarker_flatObject (pairs : List (String × String)) :
    isMarker (Event.flatObject pairs) = false := by
  have hne := namedKind_ne (get? (Event.flatObject pairs) "event")
  rw [isMarker, kind_flatObject, decide_eq_false hne.1, decide_eq_false hne.2]
  rfl

end Record

/-! ## Records that are kept -/

namespace Recorder

/-- A text in which the recorder finds no mark of a line or a branch. -/
def Overlooks (text : String) : Prop :=
  Text.occursIn branchMark text = false ∧ Text.occursIn lineMark text = false

instance : DecidablePred Overlooks := fun text =>
  inferInstanceAs (Decidable (Text.occursIn branchMark text = false ∧
    Text.occursIn lineMark text = false))

theorem recordRaw_of_overlooks (r : Recorder) {record : String} (h : Overlooks record) :
    r.recordRaw record = (r.keep record, true) := by
  rw [recordRaw, if_neg (Bool.eq_false_iff.1 h.1), if_neg (Bool.eq_false_iff.1 h.2)]

/-- A part without blanks is found in a marker exactly if it is found in the name of the test. -/
theorem occursIn_marker {part start finish test : String} (hpart : ' ' ∉ part.toList)
    (hstart : Text.occursIn part start = false) (hfinish : Text.occursIn part finish = false) :
    Text.occursIn part (start ++ " " ++ test ++ (" " ++ finish)) = Text.occursIn part test := by
  have htext : (start ++ " " ++ test ++ (" " ++ finish)).toList =
      start.toList ++ ' ' :: (test.toList ++ ' ' :: finish.toList) := by simp
  rw [Text.occursIn, Text.occursIn] at *
  rw [htext, Text.hasPart_append_cons hpart, Text.hasPart_append_cons hpart, hstart, hfinish,
    Bool.false_or, Bool.or_false]

theorem overlooks_marker (start finish : String) {test : String} (hstart : Overlooks start)
    (hfinish : Overlooks finish) (h : Overlooks test) :
    Overlooks (start ++ " " ++ test ++ (" " ++ finish)) :=
  ⟨(occursIn_marker (by decide) hstart.1 hfinish.1).trans h.1,
    (occursIn_marker (by decide) hstart.2 hfinish.2).trans h.2⟩

theorem overlooks_testStart {test : String} (h : Overlooks test) :
    Overlooks (Event.testStart test).encode :=
  overlooks_marker "=== START TEST:" "===" (by decide) (by decide) h

theorem overlooks_testEnd {test : String} (h : Overlooks test) :
    Overlooks (Event.testEnd test).encode :=
  overlooks_marker "=== END TEST:" "===" (by decide) (by decide) h

end Recorder

/-- A request that a probe makes, of a test in whose name the recorder finds none of its marks. -/
def RecorderRequest.IsOffer : RecorderRequest → Prop
  | .event e => e.kind ≠ .testStart ∧ e.kind ≠ .testEnd
  | .beginTest test | .endTest test => Recorder.Overlooks test
  | _ => False

theorem RecorderRequest.IsOffer.sparesSink {q : RecorderRequest} (h : q.IsOffer) :
    q.sparesSink = true := by
  cases q <;> first | rfl | cases h

/-- The lines that markers leave in the log: that of a start is forgotten if the next marker is a
start too. -/
def loggedMarkers : List RecorderRequest → List String
  | [] => []
  | .beginTest test :: rest =>
    (if RecorderRequest.forgotten rest then [] else [(Event.testStart test).encode]) ++
      loggedMarkers rest
  | .endTest test :: rest => (Event.testEnd test).encode :: loggedMarkers rest
  | _ :: rest => loggedMarkers rest

/-- Only markers decide what is forgotten. -/
theorem forgotten_markersOf {requests : List RecorderRequest} (h : ∀ q ∈ requests, q.IsOffer) :
    RecorderRequest.forgotten (markersOf requests) = RecorderRequest.forgotten requests := by
  induction requests with
  | nil => rfl
  | cons q rest ih =>
    have hrest := ih fun p hp => h p (by simp [hp])
    have hq := h q (by simp)
    cases q with
    | event e => exact hrest
    | beginTest test => rfl
    | endTest test => rfl
    | _ => cases hq

namespace Recorder

theorem kept?_beginTest (r : Recorder) {test : String} (h : Overlooks test) :
    r.kept? (.beginTest test) = some (Event.testStart test).encode := by
  rw [kept?, record, recordRaw_of_overlooks _ (overlooks_testStart h), if_pos rfl]

theorem kept?_endTest (r : Recorder) {test : String} (h : Overlooks test) :
    r.kept? (.endTest test) = some (Event.testEnd test).encode := by
  rw [kept?, record, recordRaw_of_overlooks _ (overlooks_testEnd h), if_pos rfl]

/-- Other events leave no markers. -/
theorem kept?_event (r : Recorder) {e : Event} (h : e.kind ≠ .testStart ∧ e.kind ≠ .testEnd) :
    (r.kept? (.event e)).toList.filter Record.isMarker = [] := by
  have hnone : Record.isMarker e.encode = false := by
    cases e with
    | testStart test => exact absurd rfl h.1
    | testEnd test => exact absurd rfl h.2
    | _ => exact Record.isMarker_flatObject _
  rw [kept?]
  split <;> simp [hnone]

/-- Which markers the recorder keeps and does not forget. -/
theorem markers_history (r : Recorder) {requests : List RecorderRequest}
    (h : ∀ q ∈ requests, q.IsOffer) :
    (((r.history requests).filter fun e => !e.2).map (·.1)).filter Record.isMarker =
      loggedMarkers (markersOf requests) := by
  induction requests generalizing r with
  | nil => rfl
  | cons q rest ih =>
    have hrest : ∀ q ∈ rest, q.IsOffer := fun p hp => h p (by simp [hp])
    have hq := h q (by simp)
    have hfirst : ∀ (records : List String) (lost : Bool),
        ((records.map fun record => (record, lost)).filter fun e => !e.2).map (·.1) =
          if lost then [] else records := by
      intro records lost
      cases lost <;> simp [List.filter_map, Function.comp_def]
    rw [history, List.filter_append, List.map_append, List.filter_append, ih _ hrest, hfirst]
    cases q with
    | event e =>
      split
      · rfl
      · rw [r.kept?_event hq]
        rfl
    | beginTest test =>
      rw [r.kept?_beginTest hq]
      change _ = loggedMarkers (.beginTest test :: markersOf rest)
      rw [loggedMarkers, forgotten_markersOf hrest]
      cases RecorderRequest.forgotten rest <;>
        simp [RecorderRequest.settles, Record.isMarker, Record.kind_testStart]
    | endTest test =>
      rw [r.kept?_endTest hq]
      change _ = loggedMarkers (.endTest test :: markersOf rest)
      simp [loggedMarkers, RecorderRequest.settles, Record.isMarker, Record.kind_testEnd]
    | _ => cases hq

/-- The markers in the log after everything that waits was written. -/
theorem markers_log (threshold : Nat) {requests : List RecorderRequest}
    (h : ∀ q ∈ requests, q.IsOffer) :
    (((ofThreshold threshold).run (requests ++ [.flushLogs, .flush])).sink.lines.toList).filter
        Record.isMarker = loggedMarkers (markersOf requests) := by
  rw [lines_of_history threshold fun q hq => (h q hq).sparesSink]
  exact markers_history _ h

end Recorder

/-! ## Pairs -/

/-- The lines of tests that run one after another. -/
def linesOf (tests : List String) : List String :=
  tests.flatMap fun test => [(Event.testStart test).encode, (Event.testEnd test).encode]

theorem loggedMarkers_pairsOf (tests : List String) :
    loggedMarkers (pairsOf tests) = linesOf tests := by
  induction tests with
  | nil => rfl
  | cons test rest ih =>
    change [_] ++ (_ :: loggedMarkers (pairsOf rest)) = _
    rw [ih]
    rfl

/-- Every end leaves its line. -/
theorem countP_loggedMarkers (requests : List RecorderRequest) :
    (loggedMarkers requests).countP (fun l => Record.kind l = .testEnd) = endsIn requests := by
  induction requests with
  | nil => rfl
  | cons q rest ih =>
    cases q with
    | beginTest test =>
      rw [loggedMarkers, List.countP_append, ih]
      split <;> simp [Record.kind_testStart, endsIn_cons, RecorderRequest.isEnd]
    | endTest test =>
      rw [loggedMarkers, List.countP_cons, ih]
      simp [Record.kind_testEnd, endsIn_cons, RecorderRequest.isEnd]
    | _ => simpa [loggedMarkers, endsIn_cons, RecorderRequest.isEnd] using ih

/-- If markers leave the lines of some tests, they have as many ends as these. -/
theorem endsIn_of_loggedMarkers {requests : List RecorderRequest} {tests : List String}
    (h : loggedMarkers requests = linesOf tests) : endsIn requests = tests.length := by
  rw [← countP_loggedMarkers, h, ← loggedMarkers_pairsOf, countP_loggedMarkers, endsIn_pairsOf]

end TraceWeave
