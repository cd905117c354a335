import TraceWeave.Proofs.Machine.StraightLine

/-!
# Runs to a position

`Body.Reaches` is a part of a run: it goes from one position to another that it had not come to
before, and notes what the probes on the way ask of the recorder in the frame at hand.  It is part
of the run that the machine makes (`Body.Reaches.runFrom`).  Through a straight line, it is the run
of that line by itself (`Body.reaches_line_iff`).
-/

namespace TraceWeave

namespace Body

/-- The instruction at a position is counted and executed. -/
def round (limit : Nat) (call : Call) (b : Body) (frame : Frame) (position : Nat) (i : Instr) :
    MachineM Control := do
  countStep limit frame
  i.op.execute call b frame position

/-- A run that comes from a frame, a position and a state to the position `stop` for the first time,
with what its own probes ask of the recorder on the way. -/
inductive Reaches (limit : Nat) (call : Call) (b : Body) (stop : Nat) :
    Frame → Nat → MachineState → List RecorderRequest → Frame → MachineState → Prop
  | here (frame : Frame) (s : MachineState) : Reaches limit call b stop frame stop s [] frame s
  | step {frame frame₁ frame₂ : Frame} {position position₁ : Nat} {s s₁ s₂ : MachineState}
      {i : Instr} {requests : List RecorderRequest} (hne : position ≠ stop)
      (hi : b.instrs[position]? = some i)
      (hround : b.round limit call frame position i s = .ok (.next frame₁ position₁) s₁)
      (hrest : Reaches limit call b stop frame₁ position₁ s₁ requests frame₂ s₂) :
      Reaches limit call b stop frame position s (i.op.requests frame ++ requests) frame₂ s₂

/-- A run that comes to a position goes on from there. -/
theorem Reaches.runFrom {limit : Nat} {call : Call} {b : Body} {stop position : Nat}
    {frame frame' : Frame} {s s' : MachineState} {requests : List RecorderRequest}
    (h : b.Reaches limit call stop frame position s requests frame' s') :
    ∃ n, ∀ rounds, b.runFrom limit call (rounds + n) frame position s =
      b.runFrom limit call rounds frame' stop s' := by
  induction h with
  | here frame s => exact ⟨0, fun rounds => rfl⟩
  | step hne hi hround _ ih =>
    obtain ⟨n, hn⟩ := ih
    refine ⟨n + 1, fun rounds => ?_⟩
    rw [← Nat.add_assoc, Body.runFrom, hi]
    simp only
    rw [← hn rounds]
    rw [round] at hround
    obtain ⟨u, s₁, hcount, hexecute⟩ := bind_eq_ok.1 hround
    rw [bind_of_ok _ hcount, bind_of_ok _ hexecute]

/-- A run through a straight line is the run of the line by itself. -/
theorem reaches_line_iff {b : Body} {position stop : Nat} {ops : List Operation}
    (hops : ∀ op ∈ ops, op.IsStraight) (hat : b.At position ops)
    (hstop : stop = position + ops.length) {limit : Nat} {call : Call} {frame frame' : Frame}
    {s s' : MachineState} {requests : List RecorderRequest} :
    b.Reaches limit call stop frame position s requests frame' s' ↔
      runLine limit call ops frame s = .ok (frame', requests) s' := by
  induction ops generalizing frame position s requests with
  | nil =>
    rw [List.length_nil, Nat.add_zero] at hstop
    subst hstop
    constructor
    · intro h
      cases h with
      | here => rfl
      | step hne => exact absurd rfl hne
    · intro h
      cases h
      exact .here _ _
  | cons op rest ih =>
    obtain ⟨⟨i, hi, rfl⟩, hrest⟩ := hat.head
    have hne : position ≠ stop := by
      rw [hstop, List.length_cons]
      omega
    have hstraight := hops i.op (by simp)
    have hround : b.round limit call frame position i =
        (countStep limit frame >>= fun _ => i.op.line call frame) >>= fun next =>
          pure (.next next (position + 1)) := by
      rw [round, bind_assoc]
      exact bind_congr fun _ => Operation.execute_of_isStraight hstraight call b frame position
    have hrest' : ∀ {next : Frame} {s₁ : MachineState} {requests' : List RecorderRequest},
        b.Reaches limit call stop next (position + 1) s₁ requests' frame' s' ↔
          runLine limit call rest next s₁ = .ok (frame', requests') s' :=
      ih (fun op hop => hops op (by simp [hop])) hrest (by rw [hstop, List.length_cons]; omega)
    rw [runLine_cons_eq_ok]
    constructor
    · intro h
      cases h with
      | here => exact absurd rfl hne
      | step _ hi' hround' hreach =>
        rw [hi] at hi'
        cases hi'
        rw [hround] at hround'
        obtain ⟨next, s₁, hfirst, hpure⟩ := bind_eq_ok.1 hround'
        cases hpure
        exact ⟨_, _, _, hfirst, hrest'.1 hreach, rfl⟩
    · rintro ⟨next, s₁, requests', hfirst, hline, rfl⟩
      refine .step hne hi ?_ (hrest'.2 hline)
      rw [hround, bind_of_ok _ hfirst]
      rfl

end Body

end TraceWeave
