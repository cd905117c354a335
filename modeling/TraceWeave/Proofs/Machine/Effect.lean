import TraceWeave.Machine.Tests
import TraceWeave.Proofs.Machine.Congruence
import TraceWeave.Proofs.Stateful

/-!
# What computations leave behind

What a run leaves in the state follows from what its probes and its calls leave there, because
nothing else is noted.  An `Effect` is what may become of the trace, the call counts and the mark of
initialization, said separately for computations that succeed and for those that fail, and closed
under doing one thing after another.  The lemmas lead from an effect of probes and calls to the same
effect of expressions, instructions, bodies (`Effect.Bounds.runFrom`) and test runs
(`Effect.Bounds.runEach`).
-/

namespace TraceWeave

/-- From one state to the next nothing is noted: nothing was asked of the recorder, no call was
counted, and initialization was not started. -/
structure MachineState.Silent (s t : MachineState) : Prop where
  trace : t.trace = s.trace
  calls : t.calls = s.calls
  initialized : t.initialized = s.initialized

theorem MachineState.Silent.refl (s : MachineState) : s.Silent s := ⟨rfl, rfl, rfl⟩

/-- What computations may do to what is noted. -/
structure Effect where
  /-- What a computation that succeeds may do. -/
  done : MachineState → MachineState → Prop
  /-- What a computation that fails may do. -/
  failed : MachineState → MachineState → Prop
  /-- It may do nothing. -/
  done_of_silent : ∀ {s t}, s.Silent t → done s t
  /-- It may fail without doing anything. -/
  failed_of_silent : ∀ {s t}, s.Silent t → failed s t
  /-- It may do one thing after another. -/
  done_trans : ∀ {s t u}, done s t → done t u → done s u
  /-- It may fail after doing something. -/
  failed_trans : ∀ {s t u}, done s t → failed t u → failed s u

namespace Effect

/-- The computation does no more than the effect says. -/
def Bounds (A : Effect) {α : Type} (x : MachineM α) : Prop :=
  ∀ s, match x s with
    | .ok _ t => A.done s t
    | .error _ t => A.failed s t

variable {A : Effect} {α β : Type}

namespace Bounds

theorem done_of_ok {x : MachineM α} (h : A.Bounds x) {s t : MachineState} {a : α}
    (hx : x s = .ok a t) : A.done s t := by
  have hs := h s
  rwa [hx] at hs

theorem failed_of_error {x : MachineM α} (h : A.Bounds x) {s t : MachineState} {f : Fault}
    (hx : x s = .error f t) : A.failed s t := by
  have hs := h s
  rwa [hx] at hs

theorem pure (a : α) : A.Bounds (pure a) := fun s => A.done_of_silent (.refl s)

theorem throw (f : Fault) : A.Bounds (throw f : MachineM α) := fun s =>
  A.failed_of_silent (.refl s)

theorem get : A.Bounds (get : MachineM MachineState) := fun s => A.done_of_silent (.refl s)

theorem modify {f : MachineState → MachineState} (h : ∀ s, MachineState.Silent s (f s)) :
    A.Bounds (modify f : MachineM Unit) := fun s => A.done_of_silent (h s)

theorem bind {x : MachineM α} {f : α → MachineM β} (hx : A.Bounds x) (hf : ∀ a, A.Bounds (f a)) :
    A.Bounds (x >>= f) := by
  intro s
  cases hxs : x s with
  | error e t =>
    rw [bind_of_error f hxs]
    exact hx.failed_of_error hxs
  | ok a t =>
    have hdone := hx.done_of_ok hxs
    rw [bind_of_ok f hxs]
    cases hfs : f a t with
    | error e u => exact A.failed_trans hdone ((hf a).failed_of_error hfs)
    | ok b u => exact A.done_trans hdone ((hf a).done_of_ok hfs)

/-- A probe asks for one thing, or fails. -/
theorem fire {p : Probe} {frame : Frame}
    (h : ∀ r, p.request? frame = some r → ∀ s, A.done s { s with trace := r :: s.trace }) :
    A.Bounds (p.fire frame) := by
  unfold Probe.fire
  split
  · next r hr => exact h r hr
  · exact .throw _
  · exact .pure _

theorem congruence (A : Effect) : Congruence fun x _ => A.Bounds x where
  pure := .pure
  fail _ := .throw _
  get := .get
  write _ _ := .modify fun _ => ⟨rfl, rfl, rfl⟩
  bind := .bind

theorem countStep (limit : Nat) (frame : Frame) : A.Bounds (TraceWeave.countStep limit frame) := by
  refine .bind .get fun s => ?_
  dsimp only
  split
  · exact .bind (.throw _) fun _ => .modify fun _ => ⟨rfl, rfl, rfl⟩
  · exact .modify fun _ => ⟨rfl, rfl, rfl⟩

section

variable {call : Call} (hcall : ∀ callee args, A.Bounds (call callee args))

include hcall

/-- A body does no more than its probes and its calls. -/
theorem runFrom {b : Body}
    (hprobes : ∀ i ∈ b.instrs, ∀ p, i.op = .probe p → ∀ frame, A.Bounds (p.fire frame))
    (limit rounds : Nat) (frame : Frame) (position : Nat) :
    A.Bounds (b.runFrom limit call rounds frame position) := by
  induction rounds generalizing frame position with
  | zero => exact .throw _
  | succ rounds ih =>
    rw [Body.runFrom]
    cases hi : b.instrs[position]? with
    | none => exact .pure _
    | some i =>
      refine .bind (.countStep limit frame) fun _ => .bind ((congruence A).execute call call frame
        hcall b position fun p hp => hprobes i (List.mem_of_getElem? hi) p hp frame)
        fun control => ?_
      cases control with
      | next frame position => exact ih frame position
      | finish result => exact .pure _

end

/-- A call does no more than counting it and running the method that it names. -/
theorem dispatch {setup : Setup} {run : String → Method → List Value → MachineM (Option Value)}
    {callee : Callee} (hcount : A.Bounds (Setup.countCall callee))
    (hrun : setup.natives callee.owner callee.method = none →
      ∀ m, setup.resolve? callee = some m → ∀ args, A.Bounds (run callee.owner m args))
    (args : List Value) : A.Bounds (setup.dispatch run callee args) := by
  refine hcount.bind fun _ => ?_
  cases hnative : setup.natives callee.owner callee.method with
  | some function =>
    refine .bind (.modify fun _ => ⟨rfl, rfl, rfl⟩) fun _ => ?_
    cases function args with
    | ok v => exact .pure _
    | error e => exact .throw _
  | none =>
    cases hm : setup.resolve? callee with
    | some m => exact hrun hnative m hm args
    | none => exact .throw _

/-- A method does no more than its body. -/
theorem executeMethod {setup : Setup} {depth : Nat} {owner : String} {m : Method}
    (hbody : ∀ frame, A.Bounds (m.body.runFrom setup.stepLimit
      (setup.dispatch (setup.execute depth)) (setup.stepLimit + 1) frame 0)) (args : List Value) :
    A.Bounds (setup.execute (depth + 1) owner m args) := by
  rw [Setup.execute]
  split
  · exact .throw _
  · exact .bind (.modify fun _ => ⟨rfl, rfl, rfl⟩) fun _ => (hbody _).bind fun result =>
      .bind (.modify fun _ => ⟨rfl, rfl, rfl⟩) fun _ => .pure _

end Bounds

/-! ## Test runs -/

namespace Bounds

variable {setup : Setup}

theorem executeTop {owner : String} {m : Method} {args : List Value}
    (h : A.Bounds (setup.execute (maxDepth + 1) owner m args)) :
    A.Bounds (setup.executeTop owner m args) :=
  .bind (.modify fun _ => ⟨rfl, rfl, rfl⟩) fun _ => h

theorem runAll {methods : List (String × Method)}
    (h : ∀ e ∈ methods, A.Bounds (setup.executeTop e.1 e.2 [])) :
    A.Bounds (setup.runAll methods) := by
  induction methods with
  | nil => exact .pure _
  | cons e rest ih =>
    exact (h e (by simp)).bind fun _ => ih fun d hd => h d (by simp [hd])

theorem initializeStatics
    (hstart : ∀ s : MachineState, A.done s { s with initialized := true })
    (h : ∀ e ∈ setup.initializers, A.Bounds (setup.executeTop e.1 e.2 [])) :
    A.Bounds setup.initializeStatics := by
  refine .bind .get fun s => ?_
  split
  · exact .pure _
  · exact .bind hstart fun _ => .runAll h

/-- A failing test is no failure of the run, so it counts as something done. -/
theorem runTest (hfailed : ∀ {s t}, A.failed s t → A.done s t) {owner : String} {m : Method}
    (h : A.Bounds (setup.executeTop owner m [])) : A.Bounds (setup.runTest owner m) := by
  refine .bind (fun s => ?_) fun _ => .pure _
  unfold Setup.attempt
  cases hx : setup.executeTop owner m [] s with
  | ok a t => exact h.done_of_ok hx
  | error e t => exact hfailed (h.failed_of_error hx)

theorem runEach (hfailed : ∀ {s t}, A.failed s t → A.done s t) {methods : List (String × Method)}
    (h : ∀ e ∈ methods, A.Bounds (setup.executeTop e.1 e.2 [])) :
    A.Bounds (setup.runEach methods) := by
  induction methods with
  | nil => exact .pure _
  | cons e rest ih =>
    exact (Bounds.runTest hfailed (h e (by simp))).bind fun run =>
      (ih fun d hd => h d (by simp [hd])).bind fun runs => .pure _

end Bounds

end Effect

/-- A call names a method of the program. -/
theorem Setup.exists_mem_of_resolve? {setup : Setup} {callee : Callee} {m : Method}
    (h : setup.resolve? callee = some m) :
    ∃ c ∈ setup.program.classes, c.name = callee.owner ∧ m ∈ c.methods ∧
      m.name = callee.method := by
  obtain ⟨c, hc, hm⟩ := Option.bind_eq_some_iff.1 h
  exact ⟨c, List.mem_of_find?_eq_some hc, by simpa using List.find?_some hc,
    List.mem_of_find?_eq_some hm, by simpa using List.find?_some hm⟩

end TraceWeave
