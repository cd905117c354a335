import TraceWeave.Proofs.Machine.Offers
import TraceWeave.Proofs.Weave.MarkedTests

/-!
# Brackets in a log

The markers that a test run offers are nested like brackets.  The log shows them as one pair for
each test, in the order of the run, exactly if no method that marks itself was called from anywhere:
a call of a test method is bracketed like a test, and its start makes the recorder forget what
waits.
`Plan.log_brackets` says this of all programs that were woven for a test run, and the examples after
it are programs whose logs do not show one pair for each test.
-/

namespace TraceWeave

/-- The lines in the log after everything that waits was written. -/
def logOf (threshold : Nat) (requests : List RecorderRequest) : List String :=
  ((Recorder.ofThreshold threshold).run (requests ++ [.flushLogs, .flush])).sink.lines.toList

/-- Of the tests of a run, those outside the infrastructure mark themselves. -/
theorem Setup.testsIn_tests (setup : Setup) {settings : Settings}
    (hlifecycle : settings.testLifecycle = true) :
    testsIn settings.marksTest (setup.tests settings) =
      ((setup.tests settings).filter fun e => !settings.isInfrastructure e.1).map fun e =>
        e.2.signature e.1 := by
  refine congrArg _ (List.filter_congr fun e he => ?_)
  obtain ⟨c, -, howner, -, hrunnable⟩ :=
    exists_class_of_mem (f := fun c => isRunnableTest settings c.name) he
  rw [isRunnableTest, howner, Method.isInitializer, Bool.and_eq_true, Bool.and_eq_true]
    at hrunnable
  rw [Settings.marksTest, hlifecycle, hrunnable.2, Bool.true_and, Bool.and_true, bne,
    hrunnable.1.2, Bool.and_true]

namespace Plan

variable {plan : Plan} {p : Program} {session : Session}

/-- What the probes of a woven program ask for. -/
theorem isOffer_weavePhases (hfree : p.ProbeFree)
    (hclean : (plan.weavePhases p session).2.isClean)
    (hnames : ∀ c ∈ p.classes, ∀ m ∈ c.methods, plan.settings.marksTest c.name m.name = true →
      Recorder.Overlooks (m.signature c.name)) {r : RecorderRequest}
    (h : (plan.weavePhases p session).1.Offers r) : r.IsOffer := by
  obtain ⟨c', hc', m', hm', i, hi, probe, frame, hop, hr⟩ := h
  obtain ⟨hmarks, horigin⟩ := marksTests_weavePhases hfree hclean .none 0
  obtain ⟨c, hc, m, hm, howner, hname, hsignature⟩ := horigin c' hc' m' hm'
  -- A marker stands in a test only, and names it.
  have hmarker : i.op.isTestMarker = true → ∃ test, Recorder.Overlooks test ∧
      (probe = .testStart test ∨ probe = .testEnd test) := by
    intro hmarker
    cases htest : plan.settings.marksTest c'.name m'.name with
    | false =>
      rw [hmarks.unmarked c' hc' m' hm' htest i hi] at hmarker
      cases hmarker
    | true =>
      refine ⟨_, hsignature ▸ hnames c hc m hm (howner ▸ hname ▸ htest), ?_⟩
      have hprobe := (hmarks.marked c' hc' m' hm' htest).marker_eq hi hmarker
      rw [hop] at hprobe
      exact hprobe.imp Operation.probe.inj Operation.probe.inj
  rw [hop] at hmarker
  cases probe with
  | testStart test =>
    cases hr
    obtain ⟨_, hoverlooks, h | h⟩ := hmarker rfl <;> cases h
    exact hoverlooks
  | testEnd test =>
    cases hr
    obtain ⟨_, hoverlooks, h | h⟩ := hmarker rfl <;> cases h
    exact hoverlooks
  | capture file line x source =>
    obtain ⟨v, -, rfl⟩ := Option.map_eq_some_iff.1 hr
    exact ⟨nofun, nofun⟩
  | _ =>
    cases hr
    exact ⟨nofun, nofun⟩

/-- The markers of a test run in which every test passes, as they were offered and in the log. -/
theorem log_brackets (plan : Plan) {p : Program} {session : Session} (hfree : p.ProbeFree)
    (hlifecycle : plan.settings.testLifecycle = true)
    (hclean : (plan.weavePhases p session).2.isClean)
    (hnames : ∀ c ∈ p.classes, ∀ m ∈ c.methods, plan.settings.marksTest c.name m.name = true →
      Recorder.Overlooks (m.signature c.name))
    (natives : Natives) (limit threshold : Nat) {s t : MachineState} (hs : s.trace = [])
    {runs : List TestRun}
    (hrun : Setup.runTests ⟨(plan.weavePhases p session).1, natives, limit⟩ plan.settings s =
      .ok runs t)
    (hpassed : ∀ run ∈ runs, run.passed = true) :
    let executed := Setup.tests ⟨(plan.weavePhases p session).1, natives, limit⟩ plan.settings
    let marked := executed.filter fun e => !plan.settings.isInfrastructure e.1
    runs.map (·.signature) = executed.map (fun e => e.2.signature e.1) ∧
      Nested (markersOf t.requests) ∧
      ((logOf threshold t.requests).filter Record.isMarker =
          linesOf (marked.map fun e => e.2.signature e.1) ↔
        ∀ owner method, natives owner method = none →
          plan.settings.marksTest owner method = true →
            t.callCount owner method = s.callCount owner method) := by
  intro executed marked
  obtain ⟨htells, hsignatures⟩ := Setup.runTests_tells
    (marksTests_weavePhases hfree hclean natives limit).1
    (fun owner => plan.settings.marksTest_initializerName owner) hrun hpassed
  have hoffers : ∀ q ∈ t.requests, q.IsOffer := by
    have hreached := Setup.Reaches.offers ⟨(plan.weavePhases p session).1, natives, limit⟩
      (.runTests (.start hs) plan.settings)
    rw [hrun] at hreached
    exact fun q hq => isOffer_weavePhases hfree hclean hnames (hreached q hq)
  refine ⟨hsignatures, htells.nested hs, ?_⟩
  rw [logOf, Recorder.markers_log threshold hoffers, ← Setup.testsIn_tests _ hlifecycle,
    htells.loggedMarkers_eq_iff hs]
  exact ⟨fun h owner method hnative htest => h owner method ⟨hnative, htest⟩,
    fun h owner method hmarks => h owner method hmarks.1 hmarks.2⟩

end Plan

/-! ### Tests that call no tests -/

/-- Two tests, of which the first calls a method of another class. -/
def flatTests : Program :=
  ⟨[{ name := "FooTest", sourceFile := some "FooTest.java",
      methods :=
        [{ name := "testA", returnType := .void
           body := { instrs :=
            [⟨⟨0⟩, 5, .invoke ⟨"Foo", "run", .void⟩ []⟩, ⟨⟨1⟩, 5, .ret none⟩] } },
          { name := "testB", returnType := .void
            body := { instrs := [⟨⟨0⟩, 6, .ret none⟩] } }] },
    { name := "Foo", sourceFile := some "Foo.java",
      methods :=
        [{ name := "run", returnType := .void, body := { instrs := [⟨⟨0⟩, 7, .nop⟩] } }] }]⟩

instance (p : Program) : Decidable p.ProbeFree :=
  inferInstanceAs (Decidable (∀ c ∈ p.classes, ∀ m ∈ c.methods, ∀ i ∈ m.body.instrs,
    i.op.isProbe = false))

/-- Their log shows one pair for each, so neither of them was called. -/
theorem log_flatTests :
    let woven := (({} : Plan).weavePhases flatTests ∅).1
    ∃ runs t, Setup.runTests ⟨woven, .none, 100⟩ {} (.initial woven) = .ok runs t ∧
      (logOf 1000 t.requests).filter Record.isMarker =
        ["=== START TEST: <FooTest: void testA()> ===", "=== END TEST: <FooTest: void testA()> ===",
          "=== START TEST: <FooTest: void testB()> ===",
          "=== END TEST: <FooTest: void testB()> ==="] ∧
      ∀ owner method, ({} : Settings).marksTest owner method = true →
        t.callCount owner method = 0 := by
  refine ⟨_, _, rfl, by decide, fun owner method => ?_⟩
  have hlog := @Plan.log_brackets {} flatTests ∅ (by decide) rfl (by decide) (by decide) .none 100
    1000 (.initial (({} : Plan).weavePhases flatTests ∅).1) _ rfl _ rfl
  exact (hlog (by decide)).2.2.1 (by decide) owner method rfl

/-! ### Tests that call each other -/

/-- The first of the tests calls the second. -/
def nestedTests : Program :=
  ⟨[{ name := "FooTest", sourceFile := some "FooTest.java",
      methods :=
        [{ name := "testA", returnType := .void
           body := { instrs :=
            [⟨⟨0⟩, 5, .invoke ⟨"FooTest", "helper", .void⟩ []⟩, ⟨⟨1⟩, 5, .ret none⟩] } },
          { name := "helper", returnType := .void
            body := { instrs := [⟨⟨0⟩, 6, .ret none⟩] } }] }]⟩

/-- A test in a class that belongs to the tracing infrastructure. -/
def infrastructureTests : Program :=
  ⟨[{ name := "LoggerTest", sourceFile := some "LoggerTest.java",
      methods :=
        [{ name := "testA", returnType := .void
           body := { instrs := [⟨⟨0⟩, 6, .ret none⟩] } }] }]⟩

/-- A test in whose name the recorder finds the mark of a reached line. -/
def quotingTests : Program :=
  ⟨[{ name := "\"event\":\"EXERCISED\"Test", sourceFile := some "FooTest.java",
      methods :=
        [{ name := "testA", returnType := .void
           body := { instrs := [⟨⟨0⟩, 6, .ret none⟩] } }] }]⟩

/-- Whenever the tests of a program go through both phases and pass, the log shows one pair for each
test that was run, in order. -/
def Program.LogsPairs (p : Program) : Prop :=
  p.ProbeFree → (({} : Plan).weavePhases p ∅).2.isClean → ∀ runs t,
    Setup.runTests ⟨(({} : Plan).weavePhases p ∅).1, .none, 100⟩ {}
        (.initial (({} : Plan).weavePhases p ∅).1) = .ok runs t →
      (∀ run ∈ runs, run.passed = true) →
        (logOf 1000 t.requests).filter Record.isMarker = linesOf (runs.map (·.signature))

/-- The first test loses its start to the second, a test of the infrastructure is not marked, and
the end of a test whose name quotes an event is taken for a line that was reached before. -/
theorem not_logsPairs :
    ¬ nestedTests.LogsPairs ∧ ¬ infrastructureTests.LogsPairs ∧ ¬ quotingTests.LogsPairs := by
  refine ⟨fun h => ?_, fun h => ?_, fun h => ?_⟩
  · exact absurd (h (by decide) (by decide) _ _ rfl (by decide)) (by decide)
  · exact absurd (h (by decide) (by decide) _ _ rfl (by decide)) (by decide)
  · exact absurd (h (by decide) (by decide) _ _ rfl (by decide)) (by decide)

end TraceWeave
