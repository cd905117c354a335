import TraceWeave.Proofs.Machine.Bracketed
import TraceWeave.Proofs.Machine.Offers

/-!
# Runs of tests

What the markers of a whole run look like if every test passes.  Each test that marks itself offers
its start and its end, and what is nested in between or follows comes from calls of methods that
mark: without any such call the markers are just one pair for each test, and with any there are more
ends than tests (`Setup.runTests_tells`).
-/

namespace TraceWeave

namespace MachineState

/-- Between two states, these tests were run: their markers are nested, they are a pair for each
test if no call of a method that marks was counted, and else there are more ends than tests. -/
def Tells (marks : String → String → Prop) (tests : List String) (s t : MachineState) : Prop :=
  ∃ l, s.Grows t l ∧ Nested (markersOf l) ∧ (s.Quiet marks t → markersOf l = pairsOf tests) ∧
    (¬ s.Quiet marks t → tests.length < endsIn (markersOf l))

variable {marks : String → String → Prop} {tests tests' : List String} {test : String}
variable {s t u : MachineState}

theorem Brackets.tells (h : Brackets marks s t) : Tells marks [] s t := by
  obtain ⟨l, hgrows, hnested, hquiet⟩ := h
  exact ⟨l, hgrows, hnested, hquiet.2, fun hnot => hnested.endsIn_pos (mt hquiet.1 hnot)⟩

/-- A test offers its start before anything else. -/
theorem Ends.tells (h : Ends marks test (s.asked (.beginTest test)) t) :
    Tells marks [test] s t := by
  obtain ⟨l, inner, outer, hgrows, hl, hinner, houter, hquiet⟩ := h.opened
  refine ⟨_, hgrows, ?_, fun hnone => ?_, fun hsome => ?_⟩
  · rw [hl]
    exact (Nested.test test hinner).append houter
  · obtain ⟨rfl, rfl⟩ := List.append_eq_nil_iff.1 (hquiet.2 hnone)
    exact hl
  · have hmore := (hinner.append houter).endsIn_pos (mt hquiet.1 hsome)
    rw [endsIn_append] at hmore
    simp only [hl, List.cons_append, endsIn_append, endsIn_cons, RecorderRequest.isEnd,
      List.length_singleton]
    simp only [Bool.false_eq_true, if_false, if_true]
    omega

theorem Tells.trans (h : Tells marks tests s t) (h' : Tells marks tests' t u) :
    Tells marks (tests ++ tests') s u := by
  obtain ⟨l, hgrows, hnested, hquiet, hmore⟩ := h
  obtain ⟨l', hgrows', hnested', hquiet', hmore'⟩ := h'
  have hiff : s.Quiet marks u ↔ s.Quiet marks t ∧ t.Quiet marks u := hgrows.quiet_iff hgrows'
  refine ⟨_, hgrows.trans hgrows', ?_, fun hnone => ?_, fun hsome => ?_⟩
  · rw [markersOf_append]
    exact hnested.append hnested'
  · rw [markersOf_append, hquiet (hiff.1 hnone).1, hquiet' (hiff.1 hnone).2, pairsOf, pairsOf,
      pairsOf, List.flatMap_append]
  · -- Either part has at least as many ends as tests, and one has more.
    have hle : tests.length ≤ endsIn (markersOf l) := by
      by_cases h : s.Quiet marks t
      · exact (hquiet h ▸ endsIn_pairsOf tests).ge
      · exact (hmore h).le
    have hle' : tests'.length ≤ endsIn (markersOf l') := by
      by_cases h : t.Quiet marks u
      · exact (hquiet' h ▸ endsIn_pairsOf tests').ge
      · exact (hmore' h).le
    rw [markersOf_append, endsIn_append, List.length_append]
    by_cases h : s.Quiet marks t
    · have := hmore' fun h' => hsome (hiff.2 ⟨h, h'⟩)
      omega
    · have := hmore h
      omega

/-- What was offered from a fresh state on is nested, whatever was called. -/
theorem Tells.nested (h : Tells marks tests s t) (hs : s.trace = []) :
    Nested (markersOf t.requests) := by
  obtain ⟨l, hgrows, hnested, -⟩ := h
  exact hgrows.requests_eq hs ▸ hnested

/-- From a fresh state on, the log shows a pair for each test exactly if nothing that marks was
called. -/
theorem Tells.loggedMarkers_eq_iff (h : Tells marks tests s t) (hs : s.trace = []) :
    loggedMarkers (markersOf t.requests) = linesOf tests ↔ s.Quiet marks t := by
  obtain ⟨l, hgrows, -, hquiet, hmore⟩ := h
  rw [hgrows.requests_eq hs]
  constructor
  · intro hlog
    by_contra hnot
    have hlt := hmore hnot
    rw [endsIn_of_loggedMarkers hlog] at hlt
    exact absurd hlt (lt_irrefl _)
  · intro hnone
    rw [hquiet hnone, loggedMarkers_pairsOf]

end MachineState

namespace Setup

variable {setup : Setup} {isTest : String → String → Bool}

/-- A test that passes is a call that comes to an end. -/
theorem executeTop_of_runTest {owner : String} {m : Method} {s t : MachineState} {run : TestRun}
    (h : setup.runTest owner m s = .ok run t) (hpassed : run.passed = true) :
    ∃ result, setup.executeTop owner m [] s = .ok result t := by
  obtain ⟨outcome, s₁, hattempt, h⟩ := bind_eq_ok.1 h
  cases h
  unfold attempt at hattempt
  split at hattempt
  · next result t hok =>
    cases hattempt
    exact ⟨result, hok⟩
  · cases hattempt
    cases hpassed

/-- What a method at the top level tells. -/
theorem executeTop_tells (h : setup.MarksTests isTest) {c : Class}
    (hc : c ∈ setup.program.classes) {m : Method} (hm : m ∈ c.methods) {s t : MachineState}
    {result : Option Value} (hrun : setup.executeTop c.name m [] s = .ok result t) :
    MachineState.Tells (setup.CallMarks isTest)
      (if isTest c.name m.name then [m.signature c.name] else []) s t := by
  obtain ⟨_, s₁, hrewind, hrun⟩ := bind_eq_ok.1 hrun
  cases hrewind
  have hsilent : MachineState.Brackets (setup.CallMarks isTest) s s.rewound := .of_silent rfl rfl
  have hat := execute_brackets h (maxDepth + 1)
  cases htest : isTest c.name m.name with
  | true => exact hsilent.tells.trans (hat.marked c hc m hm htest _ _ _ _ hrun).tells
  | false =>
    exact hsilent.tells.trans (MachineState.Brackets.tells
      ((hat.unmarked c hc m hm htest []).done_of_ok hrun))

/-- The tests among methods. -/
def testsIn (isTest : String → String → Bool) (methods : List (String × Method)) : List String :=
  (methods.filter fun e => isTest e.1 e.2.name).map fun e => e.2.signature e.1

theorem runEach_tells (h : setup.MarksTests isTest) {methods : List (String × Method)}
    (hmethods : ∀ e ∈ methods, ∃ c ∈ setup.program.classes, c.name = e.1 ∧ e.2 ∈ c.methods)
    {s t : MachineState} {runs : List TestRun} (hrun : setup.runEach methods s = .ok runs t)
    (hpassed : ∀ run ∈ runs, run.passed = true) :
    MachineState.Tells (setup.CallMarks isTest) (testsIn isTest methods) s t := by
  induction methods generalizing s runs with
  | nil =>
    cases hrun
    exact (MachineState.Brackets.of_silent rfl rfl).tells
  | cons e rest ih =>
    obtain ⟨run, s₁, hfirst, hrun⟩ := bind_eq_ok.1 hrun
    obtain ⟨others, s₂, hrest, hrun⟩ := bind_eq_ok.1 hrun
    cases hrun
    obtain ⟨result, hfirst⟩ := executeTop_of_runTest hfirst (hpassed run (by simp))
    obtain ⟨c, hc, howner, hm⟩ := hmethods e (by simp)
    rw [← howner] at hfirst
    have htests : testsIn isTest (e :: rest) =
        (if isTest c.name e.2.name then [e.2.signature c.name] else []) ++ testsIn isTest rest := by
      rw [howner, testsIn, List.filter_cons]
      split <;> rfl
    rw [htests]
    exact (executeTop_tells h hc hm hfirst).trans (ih (fun e he => hmethods e (by simp [he])) hrest
      fun run hrun => hpassed run (by simp [hrun]))

theorem signature_runEach {methods : List (String × Method)} {s t : MachineState}
    {runs : List TestRun} (hrun : setup.runEach methods s = .ok runs t) :
    runs.map (·.signature) = methods.map fun e => e.2.signature e.1 := by
  induction methods generalizing s runs with
  | nil =>
    cases hrun
    rfl
  | cons e rest ih =>
    obtain ⟨run, s₁, hfirst, hrun⟩ := bind_eq_ok.1 hrun
    obtain ⟨others, s₂, hrest, hrun⟩ := bind_eq_ok.1 hrun
    cases hrun
    obtain ⟨_, _, -, hfirst⟩ := bind_eq_ok.1 hfirst
    cases hfirst
    rw [List.map_cons, List.map_cons, ih hrest]

/-- A run in which every test passes tells the tests in order, if static initializers do not mark
anything. -/
theorem runTests_tells (h : setup.MarksTests isTest)
    (hinit : ∀ owner, isTest owner Method.initializerName = false) {settings : Settings}
    {s t : MachineState} {runs : List TestRun} (hrun : setup.runTests settings s = .ok runs t)
    (hpassed : ∀ run ∈ runs, run.passed = true) :
    MachineState.Tells (setup.CallMarks isTest) (testsIn isTest (setup.tests settings)) s t ∧
      runs.map (·.signature) = (setup.tests settings).map fun e => e.2.signature e.1 := by
  obtain ⟨_, s₁, hinitialize, hrun⟩ := bind_eq_ok.1 hrun
  have hinitializers : (Effect.bracketing (setup.CallMarks isTest)).Bounds
      setup.initializeStatics := by
    refine .initializeStatics (fun s => .of_silent rfl rfl) fun e he => ?_
    obtain ⟨c, hc, howner, hm, hinitializer⟩ :=
      exists_class_of_mem (f := fun _ => Method.isInitializer) he
    rw [← howner]
    refine .executeTop ((execute_brackets h _).unmarked c hc e.2 hm ?_ [])
    rw [Method.isInitializer, beq_iff_eq] at hinitializer
    exact hinitializer ▸ hinit c.name
  have htests := runEach_tells h (fun e he => by
    obtain ⟨c, hc, howner, hm, -⟩ :=
      exists_class_of_mem (f := fun c => isRunnableTest settings c.name) he
    exact ⟨c, hc, howner, hm⟩) hrun hpassed
  exact ⟨(MachineState.Brackets.tells (hinitializers.done_of_ok hinitialize)).trans htests,
    signature_runEach hrun⟩

end Setup

end TraceWeave
