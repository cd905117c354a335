import TraceWeave.Proofs.Machine.Offers
import TraceWeave.Proofs.Trace.Kept
import TraceWeave.Proofs.Weave.Preservation

/-!
# The log of a test run

The start of a test forgets the records that still wait, and only the end of a test settles them.  A
test that fails has no end, so its records are lost if another test starts after it, and so are the
records of a test up to a start within it.  `Setup.log_runTests` says that these are all the losses.
-/

namespace TraceWeave

theorem RecorderRequest.sparesSink_of_offers {p : Program} {r : RecorderRequest}
    (h : p.Offers r) : r.sparesSink = true := by
  obtain ⟨_, _, _, _, _, _, probe, frame, -, hr⟩ := h
  cases probe with
  | capture file line x source =>
    obtain ⟨v, -, rfl⟩ := Option.map_eq_some_iff.1 hr
    rfl
  | _ =>
    cases hr
    rfl

/-- A list without the elements that fail a test is the list itself exactly if none fails. -/
theorem map_filter_eq_map_iff {α β : Type} {p : α → Bool} {f : α → β} {l : List α} :
    (l.filter p).map f = l.map f ↔ ∀ a ∈ l, p a = true := by
  rw [← List.filter_eq_self]
  refine ⟨fun h => ?_, fun h => by rw [h]⟩
  have hlength := congrArg List.length h
  rw [List.length_map, List.length_map] at hlength
  exact List.filter_sublist.eq_of_length hlength

/-- After a test run with a fresh recorder, whichever tests pass, and after everything that waits
was written, the log holds the records that the recorder has kept, in order, except for those after
which a test starts before one ends.  So it holds all of them exactly if there are none of these. -/
theorem Setup.log_runTests (setup : Setup) (settings : Settings) (threshold : Nat)
    {s : MachineState} (hs : s.trace = []) :
    let requests := (stateAfter (setup.runTests settings s)).requests
    let history := (Recorder.ofThreshold threshold).history requests
    let log := ((Recorder.ofThreshold threshold).run (requests ++ [.flushLogs, .flush])).sink.lines
    log.toList = (history.filter fun e => !e.2).map (·.1) ∧
      (log.toList = history.map (·.1) ↔ ∀ e ∈ history, e.2 = false) := by
  intro requests history log
  have hspares : ∀ q ∈ requests, q.sparesSink = true := fun q hq =>
    RecorderRequest.sparesSink_of_offers (((Reaches.start hs).runTests settings).offers setup q hq)
  have hlog : log.toList = (history.filter fun e => !e.2).map (·.1) :=
    Recorder.lines_of_history threshold hspares
  refine ⟨hlog, ?_⟩
  rw [hlog, map_filter_eq_map_iff]
  simp

/-! ### A test that fails first -/

/-- A test class whose first test calls a method that does not exist. -/
def failingFirst : Program :=
  ⟨[{ name := "FooTest", sourceFile := some "FooTest.java",
      methods :=
        [{ name := "testA", returnType := .void
           body := { instrs := [⟨⟨0⟩, 5, .invoke ⟨"Foo", "gone", .void⟩ []⟩] } },
          { name := "testB", returnType := .void
            body := { instrs := [⟨⟨0⟩, 6, .ret none⟩] } }] }]⟩

/-- That class with the markers of its tests. -/
def failingFirstWoven : Program :=
  (Plan.weaveRuns [({}, Plan.productWeavers), ({}, Plan.testWeavers)] failingFirst ∅).1

/-- What a run of its tests asks of the recorder. -/
def failingFirstRequests : List RecorderRequest :=
  (stateAfter (Setup.runTests ⟨failingFirstWoven, .none, 100⟩ {}
    (.initial failingFirstWoven))).requests

/-- The start of the failing test was kept and is lost. -/
theorem log_failingFirst :
    ((Recorder.ofThreshold 1000).history failingFirstRequests).map (·.1) =
        ["=== START TEST: <FooTest: void testA()> ===",
          "=== START TEST: <FooTest: void testB()> ===",
          "=== END TEST: <FooTest: void testB()> ==="] ∧
      ((Recorder.ofThreshold 1000).run
          (failingFirstRequests ++ [.flushLogs, .flush])).sink.lines.toList =
        ["=== START TEST: <FooTest: void testB()> ===",
          "=== END TEST: <FooTest: void testB()> ==="] := by
  have hlog := Setup.log_runTests ⟨failingFirstWoven, .none, 100⟩ {} 1000
    (s := .initial failingFirstWoven) rfl
  have hhistory : (Recorder.ofThreshold 1000).history failingFirstRequests =
      [("=== START TEST: <FooTest: void testA()> ===", true),
        ("=== START TEST: <FooTest: void testB()> ===", false),
        ("=== END TEST: <FooTest: void testB()> ===", false)] := by decide
  exact ⟨by rw [hhistory]; rfl, hlog.1.trans (by rw [← failingFirstRequests, hhistory]; rfl)⟩

end TraceWeave
