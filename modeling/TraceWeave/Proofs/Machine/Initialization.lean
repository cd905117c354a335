import TraceWeave.Proofs.Machine.Offers
import Mathlib.Data.List.Induction

/-!
# How far initialization got

Whatever is asked of a machine, its initialization runs the static initializers in class order, each
of them at most once, and stops at the first one that fails.  Those that came to an end are kept
beside the machine here, since it does not keep them itself (`Progress`).

All that a machine remembers of its initialization is that it was started.  The mark is set before
the first static initializer runs, and a failure leaves it set, so every attempt after the first one
succeeds and does nothing.  Hence a success says that initialization was done exactly if none has
failed before (`Setup.initialization_done_iff`).
-/

namespace TraceWeave

/-- What may be asked of a machine. -/
inductive Action where
  /-- To run the static initializers. -/
  | statics
  /-- To call a method. -/
  | invoke (owner method : String) (args : List Value)
  /-- To run the tests. -/
  | runTests (settings : Settings)

/-- Whether the action begins with initialization. -/
def Action.initializes : Action → Bool
  | .invoke .. => false
  | .statics | .runTests _ => true

/-- A machine, with the static initializers that its initialization has run to completion, in
order. -/
structure Progress where
  state : MachineState
  completed : List (String × Method)

namespace Setup

variable (setup : Setup)

/-- Does what is asked. -/
def perform : Action → MachineM Unit
  | .statics => setup.initializeStatics
  | .invoke owner method args => do
    let _ ← setup.invoke owner method args
  | .runTests settings => do
    let _ ← setup.runTests settings

/-- Of methods that are run at the top level, in order, until one fails: those that come to an
end. -/
def completed : List (String × Method) → MachineState → List (String × Method)
  | [], _ => []
  | (owner, m) :: rest, s =>
    match setup.executeTop owner m [] s with
    | .ok _ t => (owner, m) :: completed rest t
    | .error _ _ => []

/-- The static initializers that the initialization of an action runs to completion.  If it was
started before there are none, since nothing is run then (`initializeStatics_of_started`). -/
def completedBy (a : Action) (s : MachineState) : List (String × Method) :=
  if a.initializes && !s.initialized then
    setup.completed setup.initializers { s with initialized := true }
  else []

/-- One more action. -/
def advance (p : Progress) (a : Action) : Progress :=
  ⟨stateAfter (setup.perform a p.state), p.completed ++ setup.completedBy a p.state⟩

/-- What a history of actions comes to. -/
def after (history : List Action) : Progress :=
  history.foldl setup.advance ⟨.initial setup.program, []⟩

/-- After the history, the action succeeds. -/
def Succeeds (history : List Action) (a : Action) : Prop :=
  ∃ t, setup.perform a (setup.after history).state = .ok () t

/-- Every initialization in the history succeeded. -/
def NoneFailed (history : List Action) : Prop :=
  ∀ earlier a, earlier ++ [a] <+: history → a.initializes = true → setup.Succeeds earlier a

variable {setup} {history : List Action} {a : Action}

@[simp] theorem after_concat (setup : Setup) (history : List Action) (a : Action) :
    setup.after (history ++ [a]) = setup.advance (setup.after history) a := by
  rw [after, List.foldl_append]
  rfl

theorem noneFailed_concat :
    setup.NoneFailed (history ++ [a]) ↔
      setup.NoneFailed history ∧ (a.initializes = true → setup.Succeeds history a) := by
  constructor
  · intro h
    exact ⟨fun earlier b hbegins => h earlier b (hbegins.trans (List.prefix_append _ _)),
      h history a (List.prefix_refl _)⟩
  · rintro ⟨h, ha⟩ earlier b hbegins hb
    rcases List.prefix_concat_iff.1 hbegins with heq | hbegins
    · obtain ⟨rfl, hba⟩ := List.append_inj' heq rfl
      cases hba
      exact ha hb
    · exact h earlier b hbegins hb

theorem noneFailed_of_any_eq_false (h : history.any Action.initializes = false) :
    setup.NoneFailed history := by
  intro earlier a hbegins ha
  have hmem : a ∈ history := hbegins.subset (by simp)
  exact absurd ha (by simpa using List.any_eq_false.1 h a hmem)

end Setup

/-! ## The mark -/

/-- Leaving the mark of initialization as it is. -/
def Effect.keepingMark : Effect where
  done s t := t.initialized = s.initialized
  failed s t := t.initialized = s.initialized
  done_of_silent h := h.initialized
  failed_of_silent h := h.initialized
  done_trans h h' := h'.trans h
  failed_trans h h' := h'.trans h

namespace Setup

open Effect

variable (setup : Setup) {s : MachineState} {history : List Action} {a : Action}

theorem dispatch_keepsMark {run : String → Method → List Value → MachineM (Option Value)}
    (hrun : ∀ owner m args, keepingMark.Bounds (run owner m args)) (callee : Callee)
    (args : List Value) : keepingMark.Bounds (setup.dispatch run callee args) :=
  .dispatch (fun _ => rfl) (fun _ m _ args => hrun callee.owner m args) args

theorem execute_keepsMark (depth : Nat) (owner : String) (m : Method) (args : List Value) :
    keepingMark.Bounds (setup.execute depth owner m args) := by
  induction depth generalizing owner m args with
  | zero => exact .throw _
  | succ depth ih =>
    exact .executeMethod (fun frame => .runFrom (setup.dispatch_keepsMark ih)
      (fun _ _ _ _ frame => .fire fun _ _ _ => rfl) _ _ _ _) args

theorem executeTop_keepsMark (e : String × Method) :
    keepingMark.Bounds (setup.executeTop e.1 e.2 []) :=
  .executeTop (setup.execute_keepsMark _ _ _ _)

theorem invoke_keepsMark (owner method : String) (args : List Value) :
    keepingMark.Bounds (setup.invoke owner method args) :=
  .bind (.modify fun _ => ⟨rfl, rfl, rfl⟩) fun _ =>
    setup.dispatch_keepsMark (setup.execute_keepsMark _) _ args

theorem exists_attempt_eq_ok {α : Type} (x : MachineM α) (s : MachineState) :
    ∃ outcome t, attempt x s = .ok outcome t := by
  rw [attempt]
  split
  · exact ⟨_, _, rfl⟩
  · exact ⟨_, _, rfl⟩

/-- A failing test is no failure of the run, so runs of tests always come to an end. -/
theorem exists_runEach_eq_ok (methods : List (String × Method)) (s : MachineState) :
    ∃ runs t, setup.runEach methods s = .ok runs t := by
  induction methods generalizing s with
  | nil => exact ⟨[], s, rfl⟩
  | cons e rest ih =>
    obtain ⟨owner, m⟩ := e
    obtain ⟨outcome, t, hattempt⟩ := exists_attempt_eq_ok (setup.executeTop owner m []) s
    obtain ⟨runs, u, hruns⟩ := ih t
    have hrun : setup.runTest owner m s = .ok ⟨m.signature owner, _⟩ t := bind_of_ok _ hattempt
    exact ⟨_, u, (bind_of_ok _ hrun).trans (bind_of_ok _ hruns)⟩

/-- Methods that are run in order all come to an end, or the first that does not is the one after
those that do. -/
theorem runAll_completed (methods : List (String × Method)) (s : MachineState) :
    (setup.completed methods s = methods ∧ ∃ t, setup.runAll methods s = .ok () t) ∨
      ∃ e rest f t, methods = setup.completed methods s ++ e :: rest ∧
        setup.runAll methods s = .error f t := by
  induction methods generalizing s with
  | nil => exact .inl ⟨rfl, s, rfl⟩
  | cons e rest ih =>
    obtain ⟨owner, m⟩ := e
    rw [completed, runAll]
    cases hm : setup.executeTop owner m [] s with
    | error f t => exact .inr ⟨(owner, m), rest, f, t, rfl, bind_of_error _ hm⟩
    | ok result t =>
      rw [bind_of_ok _ hm]
      rcases ih t with ⟨hall, u, hrun⟩ | ⟨e, later, f, u, hsome, hrun⟩
      · exact .inl ⟨congrArg _ hall, u, hrun⟩
      · exact .inr ⟨e, later, f, u, congrArg _ hsome, hrun⟩

variable {setup}

theorem completed_prefix (methods : List (String × Method)) (s : MachineState) :
    setup.completed methods s <+: methods := by
  rcases runAll_completed setup methods s with ⟨hall, -⟩ | ⟨e, rest, -, -, hsome, -⟩
  · exact ⟨[], by rw [List.append_nil, hall]⟩
  · exact ⟨e :: rest, hsome.symm⟩

theorem completed_eq_iff {methods : List (String × Method)} {s : MachineState} :
    setup.completed methods s = methods ↔ ∃ t, setup.runAll methods s = .ok () t := by
  rcases runAll_completed setup methods s with
    ⟨hall, hrun⟩ | ⟨e, rest, f, t, hsome, hrun⟩
  · exact iff_of_true hall hrun
  · refine iff_of_false (fun hall => ?_) (by simp [hrun])
    rw [hall] at hsome
    simp at hsome

/-! ## One action -/

theorem initializeStatics_of_started {s : MachineState} (h : s.initialized = true) :
    setup.initializeStatics s = .ok () s := by
  rw [initializeStatics, bind_of_ok _ (get_apply s), if_pos h]
  rfl

theorem initializeStatics_of_not_started {s : MachineState} (h : s.initialized = false) :
    setup.initializeStatics s =
      setup.runAll setup.initializers { s with initialized := true } := by
  rw [initializeStatics, bind_of_ok _ (get_apply s), if_neg (by simp [h])]
  rfl

/-- Initialization sets the mark, even if it fails. -/
theorem initialized_initializeStatics (setup : Setup) (s : MachineState) :
    (stateAfter (setup.initializeStatics s)).initialized = true := by
  cases h : s.initialized with
  | true => rwa [initializeStatics_of_started h]
  | false =>
    rw [initializeStatics_of_not_started h]
    exact (Bounds.runAll fun e _ => setup.executeTop_keepsMark e).done_stateAfter id _

/-- An action that begins with initialization ends as its initialization does: a run of the tests
fails for no other reason. -/
theorem perform_of_initializes (ha : a.initializes = true) (s : MachineState) :
    (∃ t u, setup.initializeStatics s = .ok () t ∧ setup.perform a s = .ok () u ∧
        u.initialized = t.initialized) ∨
      ∃ f t, setup.initializeStatics s = .error f t ∧ setup.perform a s = .error f t := by
  cases a with
  | invoke => cases ha
  | statics =>
    rw [perform]
    cases setup.initializeStatics s with
    | ok _ t => exact .inl ⟨t, t, rfl, rfl, rfl⟩
    | error f t => exact .inr ⟨f, t, rfl, rfl⟩
  | runTests settings =>
    rw [perform, runTests]
    cases hinit : setup.initializeStatics s with
    | ok _ t =>
      obtain ⟨runs, u, hruns⟩ := setup.exists_runEach_eq_ok (setup.tests settings) t
      have hmark : u.initialized = t.initialized :=
        (Bounds.runEach id fun e _ => setup.executeTop_keepsMark e).done_of_ok hruns
      exact .inl ⟨t, u, rfl, bind_of_ok _ ((bind_of_ok _ hinit).trans hruns), hmark⟩
    | error f t => exact .inr ⟨f, t, rfl, bind_of_error _ (bind_of_error _ hinit)⟩

/-- The mark is set by every initialization, whatever becomes of it, and by nothing else. -/
theorem initialized_perform (a : Action) (s : MachineState) :
    (stateAfter (setup.perform a s)).initialized = (s.initialized || a.initializes) := by
  cases ha : a.initializes with
  | true =>
    have hmark := initialized_initializeStatics setup s
    rcases perform_of_initializes ha s with ⟨t, u, hinit, hrun, htu⟩ | ⟨f, t, hinit, hrun⟩ <;>
      rw [hinit] at hmark <;> rw [hrun, Bool.or_true]
    · exact htu.trans hmark
    · exact hmark
  | false =>
    cases a with
    | statics | runTests => cases ha
    | invoke owner method args =>
      rw [Bool.or_false]
      exact Bounds.done_stateAfter
        ((setup.invoke_keepsMark owner method args).bind fun _ => .pure ()) id s

theorem completedBy_of_started (a : Action) {s : MachineState} (h : s.initialized = true) :
    setup.completedBy a s = [] := by
  simp [completedBy, h]

theorem completedBy_of_not_initializes (ha : a.initializes = false) (s : MachineState) :
    setup.completedBy a s = [] := by
  simp [completedBy, ha]

/-- An initialization that was not started before succeeds exactly if all static initializers come
to an end. -/
theorem exists_perform_eq_ok_iff (ha : a.initializes = true) (hs : s.initialized = false) :
    (∃ t, setup.perform a s = .ok () t) ↔ setup.completedBy a s = setup.initializers := by
  have hrun : (∃ t, setup.perform a s = .ok () t) ↔ ∃ t, setup.initializeStatics s = .ok () t := by
    rcases perform_of_initializes ha s with ⟨t, u, hinit, hrun, -⟩ | ⟨f, t, hinit, hrun⟩
    · exact iff_of_true ⟨u, hrun⟩ ⟨t, hinit⟩
    · refine iff_of_false ?_ ?_ <;> rintro ⟨u, hok⟩
      · cases hrun.symm.trans hok
      · cases hinit.symm.trans hok
  rw [hrun, initializeStatics_of_not_started hs, completedBy, if_pos (by simp [ha, hs]),
    completed_eq_iff]

/-- An initialization that was started before succeeds, however it ended then. -/
theorem exists_perform_eq_ok_of_started (ha : a.initializes = true) (hs : s.initialized = true) :
    ∃ t, setup.perform a s = .ok () t := by
  have hinit : setup.initializeStatics s = .ok () s := initializeStatics_of_started hs
  rcases perform_of_initializes ha s with ⟨t, u, -, hrun, -⟩ | ⟨f, t, hfails, -⟩
  · exact ⟨u, hrun⟩
  · cases hinit.symm.trans hfails

/-! ## Histories -/

/-- What can be said of a machine after a history of actions. -/
structure Accounted (setup : Setup) (history : List Action) : Prop where
  /-- The mark tells whether initialization was started. -/
  marked : (setup.after history).state.initialized = history.any Action.initializes
  /-- Nothing is completed before. -/
  idle : history.any Action.initializes = false → (setup.after history).completed = []
  /-- Static initializers are completed in class order, and none of them twice. -/
  ordered : (setup.after history).completed <+: setup.initializers
  /-- All of them are exactly if the first initialization succeeded, and then none has failed. -/
  done_iff : history.any Action.initializes = true →
    ((setup.after history).completed = setup.initializers ↔ setup.NoneFailed history)

namespace Accounted

theorem marked_concat (h : setup.Accounted history) (a : Action) :
    (setup.after (history ++ [a])).state.initialized =
      (history ++ [a]).any Action.initializes := by
  rw [after_concat, advance, initialized_perform, h.marked]
  simp

/-- The first initialization completes what it completes, and it fails if that is not all. -/
theorem concat_of_first (h : setup.Accounted history)
    (hfirst : history.any Action.initializes = false) (ha : a.initializes = true) :
    setup.Accounted (history ++ [a]) := by
  have hmark := h.marked.trans hfirst
  have hcompleted : (setup.after (history ++ [a])).completed =
      setup.completedBy a (setup.after history).state := by
    rw [after_concat, advance, h.idle hfirst, List.nil_append]
  refine ⟨h.marked_concat a, fun hnone => ?_, ?_, fun _ => ?_⟩
  · simp [ha] at hnone
  · rw [hcompleted, completedBy, if_pos (by simp [ha, hmark])]
    exact completed_prefix _ _
  · rw [hcompleted, ← exists_perform_eq_ok_iff ha hmark, noneFailed_concat]
    constructor
    · exact fun hok => ⟨noneFailed_of_any_eq_false hfirst, fun _ => hok⟩
    · exact fun hnone => hnone.2 ha

/-- Whatever is no first initialization completes nothing, and it is no initialization that
fails. -/
theorem concat_of_not_first (h : setup.Accounted history)
    (hlater : a.initializes = true → history.any Action.initializes = true) :
    setup.Accounted (history ++ [a]) := by
  have hnothing : setup.completedBy a (setup.after history).state = [] := by
    cases ha : a.initializes with
    | true => exact completedBy_of_started a (h.marked.trans (hlater ha))
    | false => exact completedBy_of_not_initializes ha _
  have hcompleted : (setup.after (history ++ [a])).completed = (setup.after history).completed := by
    rw [after_concat, advance, hnothing, List.append_nil]
  have hfailed : setup.NoneFailed (history ++ [a]) ↔ setup.NoneFailed history :=
    noneFailed_concat.trans (and_iff_left fun ha =>
      exists_perform_eq_ok_of_started ha (h.marked.trans (hlater ha)))
  have hany : (history ++ [a]).any Action.initializes = history.any Action.initializes := by
    cases ha : a.initializes with
    | true => simp [hlater ha]
    | false => simp [ha]
  refine ⟨h.marked_concat a, ?_, ?_, ?_⟩ <;> simp only [hcompleted, hfailed, hany]
  · exact h.idle
  · exact h.ordered
  · exact h.done_iff

/-- One more action keeps the account. -/
theorem concat (h : setup.Accounted history) (a : Action) : setup.Accounted (history ++ [a]) := by
  by_cases hfirst : a.initializes = true ∧ history.any Action.initializes = false
  · exact h.concat_of_first hfirst.2 hfirst.1
  · exact h.concat_of_not_first (by simpa using hfirst)

end Accounted

theorem accounted (setup : Setup) (history : List Action) : setup.Accounted history := by
  induction history using List.reverseRec with
  | nil => exact ⟨rfl, fun _ => rfl, List.nil_prefix, fun h => by cases h⟩
  | append_singleton history a ih => exact ih.concat a

/-- If initialization succeeds, whatever was asked of the machine before and whatever came of it,
then static initializers were completed in class order and none of them twice; and all of them were
completed exactly if no initialization has failed before. -/
theorem initialization_done_iff (setup : Setup) {history : List Action} {a : Action}
    (ha : a.initializes = true) (hok : setup.Succeeds history a) :
    (setup.after (history ++ [a])).completed <+: setup.initializers ∧
      ((setup.after (history ++ [a])).completed = setup.initializers ↔
        setup.NoneFailed history) := by
  have h := accounted setup (history ++ [a])
  refine ⟨h.ordered, (h.done_iff (by simp [ha])).trans (noneFailed_concat.trans ?_)⟩
  exact and_iff_left fun _ => hok

/-- A static initializer. -/
def initializer (instrs : List Instr) : Method :=
  { name := Method.initializerName, returnType := .void, body := { instrs } }

/-- Two classes, of which the second one cannot be prepared: its static initializer calls a method
that is not there. -/
def secondFails : Program :=
  ⟨[{ name := "Clock", methods := [initializer [⟨⟨0⟩, 3, .ret none⟩]] },
    { name := "Config"
      methods := [initializer [⟨⟨0⟩, 3, .invoke ⟨"Config", "load", .void⟩ []⟩]] }]⟩

/-- The first initialization fails in the second class, and the second one succeeds nevertheless. -/
theorem initialization_done_iff_secondFails :
    let setup : Setup := { program := secondFails }
    let p := setup.after [.statics, .statics]
    setup.Succeeds [.statics] .statics ∧ ¬ setup.NoneFailed [.statics] ∧
      p.completed.map (·.1) = ["Clock"] ∧ p.completed ≠ setup.initializers := by
  intro setup p
  have hok : setup.Succeeds [.statics] .statics := ⟨_, rfl⟩
  have hfailed : ¬ setup.NoneFailed [.statics] := by
    intro hnone
    obtain ⟨t, ht⟩ := hnone [] .statics List.prefix_rfl rfl
    cases ht
  exact ⟨hok, hfailed, rfl, mt (initialization_done_iff setup rfl hok).2.1 hfailed⟩

end Setup

end TraceWeave
