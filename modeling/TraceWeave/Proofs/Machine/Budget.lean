import TraceWeave.Proofs.Machine.Follows
import TraceWeave.Proofs.Machine.Offers

/-!
# Budgets only cut runs off

A larger budget changes nothing about a call that did not use up the smaller one, and a call that
did use it up had done, up to there, what it does under the larger one (`Setup.invoke_cutOff`).

All frames of a call share one counter, and the counter is the same in both runs until the smaller
budget is reached.  So the two runs are compared state by state: `CutOff x y` says that `x` does
what `y` does, or is stopped with everything it noted at the beginning of what `y` notes.  The
second half only survives what comes after if nothing is ever taken back, so the relation says that
of `y` too.
-/

namespace TraceWeave

/-- What the first state notes of requests and of calls of host functions, the second one notes
first. -/
structure MachineState.Precedes (s t : MachineState) : Prop where
  trace : s.trace <:+ t.trace
  hostCalls : s.hostCalls <:+ t.hostCalls

namespace MachineState.Precedes

variable {s t u : MachineState}

theorem of_eq (htrace : t.trace = s.trace) (hcalls : t.hostCalls = s.hostCalls) : s.Precedes t :=
  ⟨htrace ▸ List.suffix_rfl, hcalls ▸ List.suffix_rfl⟩

theorem refl (s : MachineState) : s.Precedes s := of_eq rfl rfl

theorem trans (h : s.Precedes t) (h' : t.Precedes u) : s.Precedes u :=
  ⟨h.trace.trans h'.trace, h.hostCalls.trans h'.hostCalls⟩

end MachineState.Precedes

/-- What is noted from one state to the next, in order: requests, and calls of host functions. -/
structure MachineState.Notes (s t : MachineState) (requests : List RecorderRequest)
    (hosted : List (Callee × List Value)) : Prop where
  requests : t.requests = s.requests ++ requests
  hosted : t.hostCalls.reverse = s.hostCalls.reverse ++ hosted

theorem MachineState.Precedes.exists_notes {s t u : MachineState} (h : s.Precedes t)
    (h' : t.Precedes u) :
    ∃ requests hosted requests' hosted', s.Notes t requests hosted ∧
      s.Notes u (requests ++ requests') (hosted ++ hosted') := by
  obtain ⟨new, hnew⟩ := h.trace
  obtain ⟨newHosted, hnewHosted⟩ := h.hostCalls
  obtain ⟨more, hmore⟩ := h'.trace
  obtain ⟨moreHosted, hmoreHosted⟩ := h'.hostCalls
  refine ⟨new.reverse, newHosted.reverse, more.reverse, moreHosted.reverse, ⟨?_, ?_⟩, ⟨?_, ?_⟩⟩
  · simp [requests, ← hnew]
  · simp [← hnewHosted]
  · simp [requests, ← hmore, ← hnew]
  · simp [← hmoreHosted, ← hnewHosted]

/-- The first computation is the second one, unless it is stopped somewhere on the way. -/
structure CutOff {α : Type} (x y : MachineM α) : Prop where
  /-- The second computation takes back nothing. -/
  precedes : ∀ s : MachineState, s.Precedes (stateAfter (y s))
  /-- The first computation does the same, or stops earlier. -/
  cut : ∀ s, x s = y s ∨ Stops (x s) ∧ (stateAfter (x s)).Precedes (stateAfter (y s))

namespace CutOff

variable {α β : Type} {x y : MachineM α}

theorem refl (h : ∀ s : MachineState, s.Precedes (stateAfter (x s))) : CutOff x x :=
  ⟨h, fun _ => .inl rfl⟩

theorem pure (a : α) : CutOff (pure a) (pure a) := refl fun s => .refl s

theorem throw (f : Fault) : CutOff (throw f : MachineM α) (throw f) := refl fun s => .refl s

theorem get : CutOff (get : MachineM MachineState) get := refl fun s => .refl s

theorem adding {f : MachineState → MachineState} (h : ∀ s : MachineState, s.Precedes (f s)) :
    CutOff (modify f : MachineM Unit) (modify f) := refl h

theorem silent {f : MachineState → MachineState} (htrace : ∀ s, (f s).trace = s.trace)
    (hhost : ∀ s, (f s).hostCalls = s.hostCalls) :
    CutOff (modify f : MachineM Unit) (modify f) :=
  adding fun s => .of_eq (htrace s) (hhost s)

theorem stop (frame : Frame) (limit : Nat)
    (h : ∀ s : MachineState, s.Precedes (stateAfter (y s))) :
    CutOff (frame.fail (.stepLimit limit)) y :=
  ⟨h, fun s => .inr ⟨⟨_, s, rfl, limit, rfl⟩, h s⟩⟩

theorem bind {f g : α → MachineM β} (h : CutOff x y) (hfg : ∀ a, CutOff (f a) (g a)) :
    CutOff (x >>= f) (y >>= g) := by
  have hafter : ∀ s, (stateAfter (y s)).Precedes (stateAfter ((y >>= g) s)) := by
    intro s
    cases hy : y s with
    | error e t =>
      rw [bind_of_error g hy]
      exact .refl t
    | ok a t =>
      rw [bind_of_ok g hy]
      exact (hfg a).precedes t
  refine ⟨fun s => (h.precedes s).trans (hafter s), fun s => ?_⟩
  rcases h.cut s with hxy | ⟨⟨e, t, hx, he⟩, hprecedes⟩
  · cases hy : y s with
    | error e t =>
      rw [bind_of_error f (hxy.trans hy), bind_of_error g hy]
      exact .inl rfl
    | ok a t =>
      rw [bind_of_ok f (hxy.trans hy), bind_of_ok g hy]
      exact (hfg a).cut t
  · have hbind := bind_of_error f hx
    rw [hx] at hprecedes
    rw [hbind]
    exact .inr ⟨⟨e, t, rfl, he⟩, hprecedes.trans (hafter s)⟩

/-- Whether it is stopped or not, the first computation notes how the second one begins. -/
theorem precedes_of_small (h : CutOff x y) (s : MachineState) :
    (stateAfter (x s)).Precedes (stateAfter (y s)) := by
  rcases h.cut s with heq | ⟨-, hprecedes⟩
  · rw [heq]
    exact .refl _
  · exact hprecedes

theorem fire (frame : Frame) (p : Probe) : CutOff (p.fire frame) (p.fire frame) := by
  unfold Probe.fire
  split
  · exact .adding fun s => ⟨List.suffix_cons _ _, List.suffix_rfl⟩
  · exact .throw _
  · exact .pure _

theorem congruence : Congruence @CutOff where
  pure := .pure
  fail _ := .throw _
  get := .get
  write _ _ := .silent (fun _ => rfl) fun _ => rfl
  bind h hfg := h.bind hfg

section

variable {limit limit' : Nat} (hlimit : limit ≤ limit')

include hlimit

theorem countStep (frame : Frame) :
    CutOff (countStep limit frame) (TraceWeave.countStep limit' frame) := by
  have hprecedes : ∀ s : MachineState,
      s.Precedes (stateAfter (TraceWeave.countStep limit' frame s)) := by
    intro s
    rcases Nat.lt_or_ge s.steps limit' with h | h
    · rw [countStep_of_lt frame h]
      exact .of_eq rfl rfl
    · rw [countStep_of_le frame h]
      exact .refl s
  refine ⟨hprecedes, fun s => ?_⟩
  rcases Nat.lt_or_ge s.steps limit with h | h
  · rw [countStep_of_lt frame h, countStep_of_lt frame (Nat.lt_of_lt_of_le h hlimit)]
    exact .inl rfl
  · rw [countStep_of_le frame h]
    exact .inr ⟨⟨_, s, rfl, limit, rfl⟩, hprecedes s⟩

/-- Running out of rounds is being stopped, so a body may also get fewer rounds. -/
theorem runFrom {call call' : Call}
    (hcall : ∀ callee args, CutOff (call callee args) (call' callee args)) (b : Body)
    {rounds rounds' : Nat} (hrounds : rounds ≤ rounds') (frame : Frame) (position : Nat) :
    CutOff (b.runFrom limit call rounds frame position)
      (b.runFrom limit' call' rounds' frame position) := by
  induction rounds' generalizing rounds frame position with
  | zero =>
    rw [Nat.le_zero.1 hrounds]
    exact .stop frame limit fun s => .refl s
  | succ rounds' ih =>
    have hsucc : ∀ {rounds}, rounds ≤ rounds' →
        CutOff (b.runFrom limit call (rounds + 1) frame position)
          (b.runFrom limit' call' (rounds' + 1) frame position) := by
      intro rounds hrounds
      rw [Body.runFrom, Body.runFrom]
      cases b.instrs[position]? with
      | none => exact .pure _
      | some i =>
        refine (CutOff.countStep hlimit frame).bind fun _ =>
          (congruence.execute call call' frame hcall b position fun p _ => .fire frame p).bind
            fun control => ?_
        cases control with
        | next frame position => exact ih hrounds frame position
        | finish result => exact .pure _
    cases rounds with
    | zero => exact .stop frame limit (hsucc (Nat.le_refl rounds')).precedes
    | succ rounds => exact hsucc (Nat.le_of_succ_le_succ hrounds)

end

end CutOff

namespace Setup

theorem dispatch_cutOff (setup : Setup)
    {run run' : String → Method → List Value → MachineM (Option Value)}
    (h : ∀ owner m args, CutOff (run owner m args) (run' owner m args)) (callee : Callee)
    (args : List Value) :
    CutOff (setup.dispatch run callee args) (setup.dispatch run' callee args) := by
  refine .bind (.silent (fun _ => rfl) fun _ => rfl) fun _ => ?_
  cases setup.natives callee.owner callee.method with
  | some function =>
    refine .bind (.adding fun s => ⟨List.suffix_rfl, List.suffix_cons _ _⟩) fun _ => ?_
    cases function args with
    | ok v => exact .pure _
    | error e => exact .throw _
  | none =>
    cases setup.resolve? callee with
    | some m => exact h callee.owner m args
    | none => exact .throw _

variable (p : Program) (natives : Natives)
variable {limit limit' : Nat} (hlimit : limit ≤ limit')

include hlimit

theorem execute_cutOff (depth : Nat) (owner : String) (m : Method) (args : List Value) :
    CutOff (execute ⟨p, natives, limit⟩ depth owner m args)
      (execute ⟨p, natives, limit'⟩ depth owner m args) := by
  induction depth generalizing owner m args with
  | zero => exact .throw _
  | succ depth ih =>
    rw [execute, execute]
    split
    · exact .throw _
    · exact .bind (.silent (fun _ => rfl) fun _ => rfl) fun _ =>
        (CutOff.runFrom hlimit (dispatch_cutOff ⟨p, natives, limit⟩ ih) m.body
          (Nat.succ_le_succ hlimit) _ 0).bind fun result =>
        CutOff.bind (.silent (fun _ => rfl) fun _ => rfl) fun _ => .pure _

theorem invoke_cutOff_invoke (owner method : String) (args : List Value) :
    CutOff (invoke ⟨p, natives, limit⟩ owner method args)
      (invoke ⟨p, natives, limit'⟩ owner method args) :=
  .bind (.silent (fun _ => rfl) fun _ => rfl) fun _ =>
    dispatch_cutOff ⟨p, natives, limit⟩ (execute_cutOff p natives hlimit _) _ args

/-- A call under a smaller budget does what it does under a larger one, or it is stopped; then what
it asked of the recorder and what it asked of the host is how the call under the larger budget
begins. -/
theorem invoke_cutOff (owner method : String) (args : List Value) (s : MachineState) :
    let small := invoke ⟨p, natives, limit⟩ owner method args s
    let large := invoke ⟨p, natives, limit'⟩ owner method args s
    (¬ Stops small → large = small) ∧
      (Stops small → ∃ requests hosted requests' hosted',
        s.Notes (stateAfter small) requests hosted ∧
          s.Notes (stateAfter large) (requests ++ requests') (hosted ++ hosted')) := by
  intro small large
  have hcut : CutOff _ _ := invoke_cutOff_invoke p natives hlimit owner method args
  have hsmall : CutOff _ _ := invoke_cutOff_invoke p natives (Nat.le_refl limit) owner method args
  constructor
  · intro hfinishes
    rcases hcut.cut s with heq | ⟨hstops, -⟩
    · exact heq.symm
    · exact absurd hstops hfinishes
  · exact fun _ => (hsmall.precedes s).exists_notes (hcut.precedes_of_small s)

omit hlimit

/-- A method that counts down from its argument and tells the recorder and the host of every
round. -/
def countdown : Method :=
  { name := "countdown", params := [⟨"n", .int⟩], returnType := .int
    body := { instrs := [⟨⟨0⟩, 5, .probe (.lineReached "Foo.java" 5)⟩,
      ⟨⟨1⟩, 5, .invoke ⟨"Host", "note", .void⟩ [.var ⟨"n", .int⟩]⟩,
      ⟨⟨2⟩, 6, .assign (.var ⟨"n", .int⟩) (.binary .sub (.var ⟨"n", .int⟩) (.value (.int 1)))⟩,
      ⟨⟨3⟩, 7, .branch (.var ⟨"n", .int⟩) ⟨0⟩⟩, ⟨⟨4⟩, 8, .ret (some (.var ⟨"n", .int⟩))⟩] } }

/-- The program of the method alone. -/
def countdownProgram : Program := ⟨[{ name := "Foo", methods := [countdown] }]⟩

/-- A host with one function. -/
def noting : Natives := fun owner _ => if owner = "Host" then some fun _ => .ok .null else none

/-- Two rounds need nine steps: six are a beginning of nine, and nine do what twelve do. -/
theorem invoke_cutOff_countdown :
    let run := fun limit => invoke ⟨countdownProgram, noting, limit⟩ "Foo" "countdown" [.int 2] {}
    (Stops (run 6) ∧ ∃ requests hosted requests' hosted',
      MachineState.Notes {} (stateAfter (run 6)) requests hosted ∧
        MachineState.Notes {} (stateAfter (run 9)) (requests ++ requests') (hosted ++ hosted')) ∧
      (¬ Stops (run 9) ∧ run 12 = run 9) := by
  intro run
  have hstops : Stops (run 6) := ⟨_, _, rfl, 6, rfl⟩
  have hfinishes : ¬ Stops (run 9) := by
    rintro ⟨f, t, herror, -⟩
    cases herror
  exact ⟨⟨hstops, (invoke_cutOff countdownProgram noting (by decide) _ _ _ _).2 hstops⟩,
    hfinishes, (invoke_cutOff countdownProgram noting (by decide) _ _ _ _).1 hfinishes⟩

end Setup

end TraceWeave
