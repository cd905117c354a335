import TraceWeave.Proofs.Machine.Effect

/-!
# What a run asks of the recorder

Everything that a run asks of the recorder comes from a probe of the program, with what it captures
read from some frame (`Setup.Reaches.offers`).  In particular a program never writes the log itself
and never changes what the sink does.
-/

namespace TraceWeave

/-- The state that a computation leaves, whether it succeeds or fails. -/
def stateAfter {α : Type} : EStateM.Result Fault MachineState α → MachineState
  | .ok _ s => s
  | .error _ s => s

/-- The request is what some probe of the program asks for in some frame. -/
def Program.Offers (p : Program) (r : RecorderRequest) : Prop :=
  ∃ c ∈ p.classes, ∃ m ∈ c.methods, ∃ i ∈ m.body.instrs, ∃ probe frame,
    i.op = .probe probe ∧ probe.request? frame = some r

/-- The trace grows by requests with a property. -/
def MachineState.Adds (P : RecorderRequest → Prop) (s t : MachineState) : Prop :=
  ∃ new, t.trace = new ++ s.trace ∧ ∀ r ∈ new, P r

namespace MachineState.Adds

variable {P : RecorderRequest → Prop} {s t u : MachineState}

theorem of_eq (h : t.trace = s.trace) : Adds P s t := ⟨[], h, by simp⟩

theorem trans (h : Adds P s t) (h' : Adds P t u) : Adds P s u := by
  obtain ⟨new, htrace, hnew⟩ := h
  obtain ⟨new', htrace', hnew'⟩ := h'
  refine ⟨new' ++ new, by rw [htrace', htrace, List.append_assoc], fun r hr => ?_⟩
  exact (List.mem_append.1 hr).elim (hnew' r) (hnew r)

theorem forall_mem (h : Adds P s t) (hs : ∀ r ∈ s.trace, P r) : ∀ r ∈ t.trace, P r := by
  obtain ⟨new, htrace, hnew⟩ := h
  intro r hr
  rw [htrace] at hr
  exact (List.mem_append.1 hr).elim (hnew r) (hs r)

end MachineState.Adds

namespace Effect

/-- Asking for things that have a property. -/
def adding (P : RecorderRequest → Prop) : Effect where
  done := MachineState.Adds P
  failed := MachineState.Adds P
  done_of_silent h := .of_eq h.trace
  failed_of_silent h := .of_eq h.trace
  done_trans := .trans
  failed_trans := .trans

namespace Bounds

variable {A : Effect} {P : RecorderRequest → Prop} {α : Type}

theorem done_stateAfter {x : MachineM α} (h : A.Bounds x)
    (hfailed : ∀ {s t}, A.failed s t → A.done s t) (s : MachineState) :
    A.done s (stateAfter (x s)) := by
  have hs := h s
  cases hx : x s <;> rw [hx] at hs
  exacts [hs, hfailed hs]

theorem adds_stateAfter {x : MachineM α} (h : (adding P).Bounds x) (s : MachineState) :
    s.Adds P (stateAfter (x s)) :=
  h.done_stateAfter id s

theorem fire_adds {p : Probe} {frame : Frame} (h : ∀ r, p.request? frame = some r → P r) :
    (adding P).Bounds (p.fire frame) :=
  .fire fun r hr _ => ⟨[r], rfl, fun _ hq => List.mem_singleton.1 hq ▸ h r hr⟩

end Bounds

end Effect

namespace Setup

variable (setup : Setup)

open Effect

theorem dispatch_offers {run : String → Method → List Value → MachineM (Option Value)}
    (hrun : ∀ owner, ∀ c ∈ setup.program.classes, ∀ m ∈ c.methods, ∀ args,
      (adding setup.program.Offers).Bounds (run owner m args))
    (callee : Callee) (args : List Value) :
    (adding setup.program.Offers).Bounds (setup.dispatch run callee args) := by
  refine .dispatch (fun _ => MachineState.Adds.of_eq rfl) (fun _ m hm args => ?_) args
  obtain ⟨c, hc, -, hmem, -⟩ := exists_mem_of_resolve? hm
  exact hrun callee.owner c hc m hmem args

theorem execute_offers (depth : Nat) (owner : String) {c : Class}
    (hc : c ∈ setup.program.classes) {m : Method} (hm : m ∈ c.methods) (args : List Value) :
    (adding setup.program.Offers).Bounds (setup.execute depth owner m args) := by
  induction depth generalizing owner c m args with
  | zero => exact .throw _
  | succ depth ih =>
    refine .executeMethod (fun frame => .runFrom (setup.dispatch_offers fun owner c hc m hm args =>
      ih owner hc hm args) (fun i hi p hp frame => .fire_adds fun r hr => ?_) _ _ _ _) args
    exact ⟨c, hc, m, hm, i, hi, p, frame, hp, hr⟩

theorem invoke_offers (owner method : String) (args : List Value) :
    (adding setup.program.Offers).Bounds (setup.invoke owner method args) :=
  .bind (.modify fun _ => ⟨rfl, rfl, rfl⟩) fun _ =>
    setup.dispatch_offers (fun owner _ hc _ hm args => setup.execute_offers _ owner hc hm args) _ _

/-- The methods that are picked from every class are methods of these classes. -/
theorem exists_class_of_mem {p : Program} {f : Class → Method → Bool} {e : String × Method}
    (h : e ∈ p.classes.flatMap fun c => (c.methods.filter (f c)).map fun m => (c.name, m)) :
    ∃ c ∈ p.classes, c.name = e.1 ∧ e.2 ∈ c.methods ∧ f c e.2 = true := by
  obtain ⟨c, hc, he⟩ := List.mem_flatMap.1 h
  obtain ⟨m, hm, rfl⟩ := List.mem_map.1 he
  exact ⟨c, hc, rfl, (List.mem_filter.1 hm).1, (List.mem_filter.1 hm).2⟩

theorem executeTop_offers {e : String × Method} {f : Class → Method → Bool}
    (h : e ∈ setup.program.classes.flatMap fun c =>
      (c.methods.filter (f c)).map fun m => (c.name, m)) :
    (adding setup.program.Offers).Bounds (setup.executeTop e.1 e.2 []) := by
  obtain ⟨c, hc, -, hm, -⟩ := exists_class_of_mem h
  exact .executeTop (setup.execute_offers _ _ hc hm [])

theorem initializeStatics_offers :
    (adding setup.program.Offers).Bounds setup.initializeStatics :=
  .initializeStatics (fun _ => .of_eq rfl) fun _ he =>
    setup.executeTop_offers (f := fun _ => Method.isInitializer) he

theorem runTests_offers (settings : Settings) :
    (adding setup.program.Offers).Bounds (setup.runTests settings) :=
  .bind setup.initializeStatics_offers fun _ => .runEach id fun _ he =>
    setup.executeTop_offers (f := fun c => isRunnableTest settings c.name) he

/-- The states that a machine comes to from one without requests, by whatever is called and whatever
comes of it. -/
inductive Reaches (setup : Setup) : MachineState → Prop
  | start {s : MachineState} (h : s.trace = []) : setup.Reaches s
  | statics {s : MachineState} (h : setup.Reaches s) :
      setup.Reaches (stateAfter (setup.initializeStatics s))
  | invoke {s : MachineState} (h : setup.Reaches s) (owner method : String) (args : List Value) :
      setup.Reaches (stateAfter (setup.invoke owner method args s))
  | runTests {s : MachineState} (h : setup.Reaches s) (settings : Settings) :
      setup.Reaches (stateAfter (setup.runTests settings s))

/-- Everything that is ever asked of the recorder comes from a probe of the program. -/
theorem Reaches.offers {s : MachineState} (h : setup.Reaches s) :
    ∀ r ∈ s.requests, setup.program.Offers r := by
  have htrace : ∀ r ∈ s.trace, setup.program.Offers r := by
    induction h with
    | start h => simp [h]
    | statics _ ih =>
      exact (setup.initializeStatics_offers.adds_stateAfter _).forall_mem ih
    | invoke _ owner method args ih =>
      exact ((setup.invoke_offers owner method args).adds_stateAfter _).forall_mem ih
    | runTests _ settings ih =>
      exact ((setup.runTests_offers settings).adds_stateAfter _).forall_mem ih
  exact fun r hr => htrace r (List.mem_reverse.1 hr)

end Setup

end TraceWeave
