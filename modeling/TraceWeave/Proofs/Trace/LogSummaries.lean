import TraceWeave.Proofs.Trace.Summaries
import TraceWeave.Proofs.Weave.PlainNames

/-!
# Summaries of the logs of runs

The log of a woven program with plain names, read back: a record is written on a line of its own
exactly if it shows no value with a line feed, and the summary counts the records right exactly if
all of them do.  It then counts them by kind as they were written, as long as no value has a piece
that is read as the name of a kind (`Plan.summary_weaveRuns`).  Values are written as they are, so
both can go wrong, the first one with a single character (`records_lineFeedTest`).
-/

namespace TraceWeave

/-- The record of an event shows no value with a line feed. -/
def Event.StaysOnLine (e : Event) : Prop := ∀ value, e.value? = some value → '\n' ∉ value.toList

/-- The record of an event shows no value that is read back as naming a kind. -/
def Event.KeepsKind (e : Event) : Prop := ∀ value, e.value? = some value → ¬ Record.NamesKind value

/-- What the summary says of records with plain names. -/
theorem LogSummary.ofLog_encode {events : List Event} (hplain : ∀ e ∈ events, e.Plain) {sink : Sink}
    (hsink : sink.lines.toList = events.map Event.encode) :
    ((ofLog sink.text).records = events.length ↔ ∀ e ∈ events, e.StaysOnLine) ∧
      ((∀ e ∈ events, e.StaysOnLine ∧ e.KeepsKind) →
        ∀ kind, (ofLog sink.text).count kind = events.countP fun e => e.kind = kind) := by
  have hends : ∀ r ∈ sink.lines.toList, Text.HasVisibleEnds r.toList := by
    rw [hsink, List.forall_mem_map]
    exact fun e _ => e.hasVisibleEnds_encode
  have hlines : (∀ r ∈ sink.lines.toList, '\n' ∉ r.toList) ↔ ∀ e ∈ events, e.StaysOnLine := by
    rw [hsink, List.forall_mem_map]
    refine forall₂_congr fun e he => ?_
    rw [Event.newline_encode (hplain e he)]
    simp [Event.StaysOnLine]
  have hsize : sink.lines.size = events.length := by
    rw [← Array.length_toList, hsink, List.length_map]
  refine ⟨by rw [← hsize, records_eq_iff hends, hlines], fun h kind => ?_⟩
  rw [count_ofLog, recordsOf_text hends (hlines.2 fun e he => (h e he).1), hsink, List.countP_map]
  refine List.countP_congr fun e he => ?_
  simp [Record.kind_encode (hplain e he) (h e he).2]

/-- The summary of a log of a woven program. -/
theorem Plan.summary_weaveRuns (runs : List (Plan × List Weaver)) {p : Program} (hp : p.Plain)
    (session : Session) (natives : Natives) (limit : Nat) {s : MachineState}
    (hs : Setup.Reaches ⟨(weaveRuns runs p session).1, natives, limit⟩ s) {events : List Event}
    (hevents : ∀ e ∈ events, ∃ r ∈ s.requests, r.event? = some e) {sink : Sink}
    (hsink : sink.lines.toList = events.map Event.encode) :
    ((LogSummary.ofLog sink.text).records = events.length ↔ ∀ e ∈ events, e.StaysOnLine) ∧
      ((∀ e ∈ events, e.StaysOnLine ∧ e.KeepsKind) → ∀ kind,
        (LogSummary.ofLog sink.text).count kind = events.countP fun e => e.kind = kind) := by
  refine LogSummary.ofLog_encode (fun e he => ?_) hsink
  obtain ⟨r, hr, hevent⟩ := hevents e he
  exact (plain_weaveRuns runs hp session).event (hs.offers _ r hr) hevent

/-! ### A value that breaks its line -/

/-- A method that compares a character with a line feed. -/
def lineFeedTest : Method :=
  { name := "cmp", params := [⟨"c", .char⟩], returnType := .void
    body := { instrs :=
      [⟨⟨0⟩, 5, .branch (.binary .eq (.var ⟨"c", .char⟩) (.value (.char '\n'))) ⟨1⟩⟩,
        ⟨⟨1⟩, 6, .ret none⟩] } }

/-- The program of the method, woven. -/
def lineFeedWoven : Program :=
  (Plan.weaveRuns [(Plan.requestingFive, Plan.productWeavers)] ⟨[Plan.lone lineFeedTest]⟩ ∅).1

/-- What a call of the method leaves. -/
def lineFeedState : MachineState :=
  stateAfter
    (Setup.invoke ⟨lineFeedWoven, .none, 100⟩ "Foo" "cmp" [.char 'a'] (.initial lineFeedWoven))

theorem plain_lineFeedTest : Program.Plain ⟨[Plan.lone lineFeedTest]⟩ := by
  intro c hc
  rw [List.mem_singleton.1 hc]
  refine ⟨by decide, by decide, fun m hm => ?_⟩
  rw [List.mem_singleton.1 hm]
  refine ⟨by decide, fun x hx => ?_, by decide, fun i hi => ?_⟩
  · rw [List.mem_singleton.1 hx]
    exact ⟨by decide, by decide⟩
  · rcases List.mem_cons.1 hi with rfl | hi
    · exact ⟨⟨by decide, by decide⟩, trivial⟩
    · rw [List.mem_singleton.1 hi]
      trivial

/-- Five records are written, but the summary does not count five: the captured line feed breaks the
record that shows it. -/
theorem records_lineFeedTest :
    let events := lineFeedState.requests.filterMap RecorderRequest.event?
    let sink := ((Recorder.ofThreshold 1000).run
      (lineFeedState.requests ++ [.flushLogs, .flush])).sink
    sink.lines.toList = events.map Event.encode ∧ events.length = 5 ∧
      (LogSummary.ofLog sink.text).records ≠ 5 := by
  intro events sink
  have hsink : sink.lines.toList = events.map Event.encode := by decide +kernel
  have hlength : events.length = 5 := by decide
  have hvar : Event.var "Foo.java" 5 "__autogen_0" "char" "constant" "\n" ∈ events := by decide
  refine ⟨hsink, hlength, fun hrecords => ?_⟩
  have hiff := (Plan.summary_weaveRuns [(Plan.requestingFive, Plan.productWeavers)]
    plain_lineFeedTest ∅ .none 100 (.invoke (.start rfl) "Foo" "cmp" [.char 'a'])
    (fun _ he => List.mem_filterMap.1 he) hsink).1
  exact absurd (hiff.1 (hrecords.trans hlength.symm) _ hvar "\n" rfl) (by decide)

end TraceWeave
