import TraceWeave.Proofs.Machine.Follows
import TraceWeave.Proofs.Machine.Walks
import Mathlib.Data.List.Chain

/-!
# What a run has recorded so far

`Body.steps` runs a body like the machine does and notes every instruction that is executed,
together with the trace at that time, the last request first.  Nothing is recorded between an
instruction and the next one, so after a probe the trace begins with its request
(`Body.isChain_steps`), and after a row of probes it begins with theirs (`trace_eq_of_isChain`).
-/

namespace TraceWeave

/-- The requests that a run has made when it comes to an instruction. -/
abbrev Step := Instr × List RecorderRequest

namespace Body

/-- Runs a body from a position and notes the instructions that are executed, each with the trace
that there is before it. -/
def steps (limit : Nat) (call : Call) (b : Body) :
    Nat → Frame → Nat → MachineState → List Step
  | 0, _, _, _ => []
  | rounds + 1, frame, position, s =>
    match b.instrs[position]? with
    | none => []
    | some i =>
      match countStep limit frame s with
      | .error _ _ => []
      | .ok _ s =>
        (i, s.trace) ::
          match i.op.execute call b frame position s with
          | .ok (.next frame position) s => b.steps limit call rounds frame position s
          | _ => []

section

variable (limit : Nat) (call : Call) (b : Body) (rounds : Nat) (frame : Frame) (position : Nat)
  (s : MachineState)

/-- The instructions are those of the watched run. -/
theorem map_label_steps : (b.steps limit call rounds frame position s).map (·.1.label) =
    (b.watch limit call rounds frame position s).labels := by
  induction rounds generalizing frame position s with
  | zero => rfl
  | succ rounds ih =>
    unfold steps watch
    cases b.instrs[position]? with
    | none => rfl
    | some i =>
      dsimp only
      cases countStep limit frame s with
      | error f s₁ => rfl
      | ok u s₁ =>
        dsimp only
        cases i.op.execute call b frame position s₁ with
        | error f s₂ => rfl
        | ok control s₂ =>
          cases control with
          | next frame' position' => exact congrArg (i.label :: ·) (ih frame' position' s₂)
          | finish result => rfl

theorem mem_instrs_of_mem_steps {e : Step} (he : e ∈ b.steps limit call rounds frame position s) :
    e.1 ∈ b.instrs := by
  induction rounds generalizing frame position s with
  | zero => cases he
  | succ rounds ih =>
    unfold steps at he
    split at he
    · cases he
    · next i hi =>
      split at he
      · cases he
      · rcases List.mem_cons.1 he with rfl | he
        · exact List.mem_of_getElem? hi
        · split at he
          · exact ih _ _ _ he
          · cases he

variable {limit call b rounds frame position s} in
/-- A run begins with the trace that there is. -/
theorem trace_of_head?_steps {e : Step}
    (he : (b.steps limit call rounds frame position s).head? = some e) : e.2 = s.trace := by
  cases rounds with
  | zero => cases he
  | succ rounds =>
    unfold steps at he
    split at he
    · cases he
    · split at he
      · cases he
      · next hcount =>
        cases he
        rcases Nat.lt_or_ge s.steps limit with hlt | hle
        · rw [countStep_of_lt frame hlt] at hcount
          cases hcount
          rfl
        · rw [countStep_of_le frame hle] at hcount
          cases hcount

end

end Body

/-- A probe that fires adds its request to the trace, if it has one. -/
theorem Probe.trace_of_fire {p : Probe} {frame : Frame} {u : Unit} {s s' : MachineState}
    (h : p.fire frame s = .ok u s') : s'.trace = (p.request? frame).toList ++ s.trace := by
  cases hrequest : p.request? frame with
  | some r =>
    simp only [fire, hrequest] at h
    cases h
    rfl
  | none =>
    -- Only a capture may have none, and then it fails.
    cases p with
    | capture file line x source =>
      simp only [fire, hrequest] at h
      cases h
    | _ => cases hrequest

/-- After a step that is a probe comes one that has the request of the probe before it. -/
def Step.Leads (e e' : Step) : Prop :=
  ∀ p, e.1.op = .probe p → ∃ frame, e'.2 = (p.request? frame).toList ++ e.2

/-- What is recorded between one step and the next is what the first one asks for. -/
theorem Body.isChain_steps (limit : Nat) (call : Call) (b : Body) (rounds : Nat) (frame : Frame)
    (position : Nat) (s : MachineState) :
    (b.steps limit call rounds frame position s).IsChain Step.Leads := by
  induction rounds generalizing frame position s with
  | zero => exact .nil
  | succ rounds ih =>
    unfold steps
    split
    · exact .nil
    · split
      · exact .nil
      · next i _ _ s₁ hcount =>
        split
        · next frame' position' s₂ hexecute =>
          refine (ih frame' position' s₂).cons fun e he p hp => ⟨frame, ?_⟩
          rw [trace_of_head?_steps he]
          dsimp only at hp ⊢
          rw [hp] at hexecute
          obtain ⟨u, s₃, hfire, hrest⟩ := bind_eq_ok.1 hexecute
          cases hrest
          exact Probe.trace_of_fire hfire
        · exact .singleton _

/-- After a row of probes that ask for something in every frame, the trace begins with that. -/
theorem trace_eq_of_isChain {row : List Step} {requests : List RecorderRequest} {last : Step}
    (hrow : List.Forall₂ (fun e r => ∃ p : Probe, e.1.op = .probe p ∧
      ∀ frame, p.request? frame = some r) row requests)
    (h : (row ++ [last]).IsChain Step.Leads) :
    ∃ first, (row ++ [last]).head? = some first ∧ last.2 = requests.reverse ++ first.2 := by
  induction hrow with
  | nil => exact ⟨last, rfl, rfl⟩
  | @cons e r row requests he _ ih =>
    rw [List.cons_append, List.isChain_cons] at h
    obtain ⟨hfirst, hrest⟩ := h
    obtain ⟨first, hhead, htrace⟩ := ih hrest
    obtain ⟨p, hop, hrequest⟩ := he
    obtain ⟨frame, hnext⟩ := hfirst first hhead p hop
    rw [hrequest] at hnext
    refine ⟨e, rfl, ?_⟩
    rw [htrace, hnext]
    simp

end TraceWeave
