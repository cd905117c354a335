import TraceWeave.Proofs.Machine.Evaluation

/-!
# Straight lines

What weaving inserts before an instruction are assignments to variables and probes, which run one
after another.  `runLine` runs such operations by themselves and also returns what their probes ask
of the recorder.  In a body, a run through a straight line is `runLine` (`Body.checkedFrom_line`).
-/

namespace TraceWeave

/-- An assignment to a variable, or a probe. -/
def Operation.IsStraight : Operation → Prop
  | .assign (.var _) _ => True
  | .probe _ => True
  | _ => False

theorem Operation.IsStraight.target?_eq {op : Operation} (h : op.IsStraight) :
    op.target? = none := by
  cases op <;> first | rfl | exact h.elim

theorem Operation.IsStraight.isTerminator_eq {op : Operation} (h : op.IsStraight) :
    op.isTerminator = false := by
  cases op <;> first | rfl | exact h.elim

/-- Executes a straight operation. -/
def Operation.line (call : Call) (frame : Frame) : Operation → MachineM Frame
  | .assign (.var x) value => do
    let v ← value.eval call frame
    return frame.assign x.name v
  | .probe p => do
    p.fire frame
    return frame
  | _ => return frame

/-- What an operation asks of the recorder by itself, calls left aside. -/
def Operation.requests (frame : Frame) : Operation → List RecorderRequest
  | .probe p => (p.request? frame).toList
  | _ => []

/-- Executes straight operations one after another.  Returns the frame at the end and what the
probes among them ask of the recorder. -/
def runLine (limit : Nat) (call : Call) :
    List Operation → Frame → MachineM (Frame × List RecorderRequest)
  | [], frame => return (frame, [])
  | op :: rest, frame => do
    countStep limit frame
    let next ← op.line call frame
    let (last, requests) ← runLine limit call rest next
    return (last, op.requests frame ++ requests)

theorem runLine_append (limit : Nat) (call : Call) (ops ops' : List Operation) (frame : Frame) :
    runLine limit call (ops ++ ops') frame = do
      let (next, requests) ← runLine limit call ops frame
      let (last, requests') ← runLine limit call ops' next
      return (last, requests ++ requests') := by
  induction ops generalizing frame with
  | nil => simp [runLine]
  | cons op rest ih => simp [runLine, ih]

/-- A straight line goes through if its first operation does and then the others. -/
theorem runLine_cons_eq_ok {limit : Nat} {call : Call} {op : Operation} {rest : List Operation}
    {frame frame' : Frame} {s s' : MachineState} {requests : List RecorderRequest} :
    runLine limit call (op :: rest) frame s = .ok (frame', requests) s' ↔
      ∃ next s₁ requests', (countStep limit frame >>= fun _ => op.line call frame) s = .ok next s₁ ∧
        runLine limit call rest next s₁ = .ok (frame', requests') s' ∧
        requests = op.requests frame ++ requests' := by
  have hsplit : runLine limit call (op :: rest) frame =
      (countStep limit frame >>= fun _ => op.line call frame) >>= fun next =>
        runLine limit call rest next >>= fun p => pure (p.1, op.requests frame ++ p.2) := by
    simp [runLine]
  rw [hsplit, bind_eq_ok]
  constructor
  · rintro ⟨next, s₁, hfirst, h⟩
    obtain ⟨p, s₂, hrest, hpure⟩ := bind_eq_ok.1 h
    cases hpure
    exact ⟨next, s₁, p.2, hfirst, hrest, rfl⟩
  · rintro ⟨next, s₁, requests', hfirst, hrest, rfl⟩
    exact ⟨next, s₁, hfirst, bind_eq_ok.2 ⟨_, _, hrest, rfl⟩⟩

/-! ## Straight lines in bodies -/

theorem Operation.execute_of_isStraight {op : Operation} (h : op.IsStraight) (call : Call)
    (b : Body) (frame : Frame) (position : Nat) :
    op.execute call b frame position =
      op.line call frame >>= fun next => pure (.next next (position + 1)) := by
  cases op with
  | assign target value =>
    cases target with
    | var x => simp [execute, line]
    | field f => exact h.elim
  | probe p => simp [execute, line]
  | _ => exact h.elim

theorem Operation.checkedExecute_of_isStraight {op : Operation} (h : op.IsStraight) (call : Call)
    (b : Body) (frame : Frame) (position : Nat) :
    op.checkedExecute call b frame position =
      op.line call frame >>= fun next => pure (.next next (position + 1)) := by
  rw [← execute_of_isStraight h]
  cases op with
  | branch condition target => exact h.elim
  | _ => rfl

/-- The operations stand in the body from a position on. -/
def Body.At (b : Body) (position : Nat) (ops : List Operation) : Prop :=
  ops <+: (b.instrs.drop position).map (·.op)

theorem Body.At.head {b : Body} {position : Nat} {op : Operation} {rest : List Operation}
    (h : b.At position (op :: rest)) :
    (∃ i, b.instrs[position]? = some i ∧ i.op = op) ∧ b.At (position + 1) rest := by
  obtain ⟨tail, htail⟩ := h
  cases hdrop : b.instrs.drop position with
  | nil =>
    rw [hdrop] at htail
    cases htail
  | cons i after =>
    rw [hdrop, List.map_cons, List.cons_append, List.cons.injEq] at htail
    have hget : b.instrs[position]? = some i := by
      rw [← Nat.add_zero position, ← List.getElem?_drop, hdrop]
      rfl
    have hafter : b.instrs.drop (position + 1) = after := by
      rw [← List.tail_drop, hdrop, List.tail_cons]
    refine ⟨⟨i, hget, htail.1.symm⟩, tail, ?_⟩
    rw [hafter, htail.2]

/-- A run that comes to a straight line runs through it and goes on after it. -/
theorem Body.checkedFrom_line {b : Body} {position : Nat} {ops : List Operation}
    (hops : ∀ op ∈ ops, op.IsStraight) (hat : b.At position ops) (limit : Nat) (call : Call)
    (rounds : Nat) (frame : Frame) :
    b.checkedFrom limit call (rounds + ops.length) frame position =
      runLine limit call ops frame >>= fun p =>
        b.checkedFrom limit call rounds p.1 (position + ops.length) := by
  induction ops generalizing frame position with
  | nil => simp [runLine]
  | cons op rest ih =>
    obtain ⟨⟨i, hi, rfl⟩, hrest⟩ := hat.head
    have hstraight := hops i.op (by simp)
    rw [List.length_cons, ← Nat.add_assoc, checkedFrom, hi]
    simp only [runLine, bind_assoc, pure_bind,
      Operation.checkedExecute_of_isStraight hstraight call b frame position]
    refine bind_congr fun _ => bind_congr fun next => ?_
    rw [ih (fun op hop => hops op (by simp [hop])) hrest, Nat.add_assoc position,
      Nat.add_comm 1]

end TraceWeave
