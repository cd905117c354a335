import TraceWeave.Proofs.Body.Consistency
import TraceWeave.Proofs.Machine.Reaching

/-!
# Blocks

A block of a body is a straight line that no jump leads into, so that control passes through it from
its first instruction to its end.  A run that comes to the end of a block from somewhere else passes
its first instruction on the way (`Body.Block.exists_reaches_first`).
-/

namespace TraceWeave

/-- A jump leads to a position with the label that it names. -/
theorem Body.getElem?_of_jumpPosition? {b : Body} {t : Label} {position : Nat}
    (h : b.jumpPosition? t = some position) : b.labels[position]? = some t := by
  obtain ⟨n, hn, rfl⟩ := Option.map_eq_some_iff.1 h
  obtain ⟨hlt, hlabel, -⟩ := List.findIdx?_eq_some_iff_getElem.1 hn
  rw [List.length_reverse] at hlt
  rw [List.getElem_reverse, beq_iff_eq] at hlabel
  rw [← hlabel]
  exact getElem?_labels (List.getElem?_eq_getElem (by omega))

/-- From `first` up to `stop`, the body is a straight line, and no jump leads to a position after
`first` up to `stop`. -/
structure Body.Block (b : Body) (first stop : Nat) : Prop where
  le : first ≤ stop
  straight : ∀ position i, first ≤ position → position < stop →
    b.instrs[position]? = some i → i.op.IsStraight
  closed : ∀ t ∈ b.targets, ∀ position, b.jumpPosition? t = some position →
    position ≤ first ∨ stop < position

/-- How a method goes on after an instruction: it returns, or it comes to the next position, or to
where the instruction jumps. -/
inductive Operation.GoesOn (b : Body) (position : Nat) (op : Operation) : Control → Prop
  | finish {result : Option Value} (hreturn : op.isReturn = true) :
      GoesOn b position op (.finish result)
  | step {frame : Frame} (hterminator : op.isTerminator = false) :
      GoesOn b position op (.next frame (position + 1))
  | jump {frame : Frame} {t : Label} {position' : Nat} (htarget : op.target? = some t)
      (hposition : b.jumpPosition? t = some position') :
      GoesOn b position op (.next frame position')

theorem Body.goesOn_of_jump {b : Body} {frame : Frame} {t : Label} {control : Control}
    {s s' : MachineState} (h : b.jump frame t s = .ok control s') {position : Nat} {op : Operation}
    (htarget : op.target? = some t) : op.GoesOn b position control := by
  unfold jump at h
  cases hposition : b.jumpPosition? t with
  | some k =>
    rw [hposition] at h
    cases h
    exact .jump htarget hposition
  | none =>
    rw [hposition] at h
    cases h

theorem Operation.goesOn_of_execute {call : Call} {b : Body} {frame : Frame} {position : Nat}
    {op : Operation} {control : Control} {s s' : MachineState}
    (h : op.execute call b frame position s = .ok control s') : op.GoesOn b position control := by
  cases op with
  | assign target value =>
    cases target with
    | var x =>
      obtain ⟨v, s₁, -, h⟩ := bind_eq_ok.1 h
      cases h
      exact .step rfl
    | field f =>
      obtain ⟨v, s₁, -, h⟩ := bind_eq_ok.1 h
      obtain ⟨_, s₂, -, h⟩ := bind_eq_ok.1 h
      cases h
      exact .step rfl
  | branch condition target =>
    obtain ⟨v, s₁, -, h⟩ := bind_eq_ok.1 h
    obtain ⟨holds, s₂, -, h⟩ := bind_eq_ok.1 h
    cases holds with
    | true => exact Body.goesOn_of_jump h rfl
    | false =>
      cases h
      exact .step rfl
  | goto target => exact Body.goesOn_of_jump h rfl
  | invoke callee args =>
    obtain ⟨values, s₁, -, h⟩ := bind_eq_ok.1 h
    obtain ⟨_, s₂, -, h⟩ := bind_eq_ok.1 h
    cases h
    exact .step rfl
  | ret value =>
    cases value with
    | none =>
      cases h
      exact .finish rfl
    | some value =>
      obtain ⟨v, s₁, -, h⟩ := bind_eq_ok.1 h
      cases h
      exact .finish rfl
  | probe p =>
    obtain ⟨_, s₁, -, h⟩ := bind_eq_ok.1 h
    cases h
    exact .step rfl
  | nop =>
    cases h
    exact .step rfl

namespace Body

variable {limit : Nat} {call : Call} {b : Body} {first stop : Nat}

/-- From outside a block, control only comes to its first instruction. -/
theorem Block.outside_of_round (h : b.Block first stop) {frame frame' : Frame}
    {position position' : Nat} {i : Instr} {s s' : MachineState}
    (hi : b.instrs[position]? = some i) (houtside : position < first ∨ stop < position)
    (hround : b.round limit call frame position i s = .ok (.next frame' position') s') :
    position' ≤ first ∨ stop < position' := by
  obtain ⟨_, s₁, -, hexecute⟩ := bind_eq_ok.1 hround
  cases Operation.goesOn_of_execute hexecute with
  | step hterminator =>
    rcases houtside with hlt | hlt
    · exact .inl hlt
    · exact .inr (Nat.lt_succ_of_lt hlt)
  | @jump _ t _ htarget hposition =>
    exact h.closed t (mem_targets.2 ⟨i, List.mem_of_getElem? hi, htarget⟩) position' hposition

/-- A run that comes to the end of a block from outside has passed its first instruction. -/
theorem Block.exists_reaches_first (h : b.Block first stop) {frame frame' : Frame}
    {position : Nat} {s s' : MachineState} {requests : List RecorderRequest}
    (hreach : b.Reaches limit call stop frame position s requests frame' s')
    (houtside : position ≤ first ∨ stop < position) :
    ∃ frame₁ s₁ before during,
      b.Reaches limit call first frame position s before frame₁ s₁ ∧
      b.Reaches limit call stop frame₁ first s₁ during frame' s' ∧
      requests = before ++ during := by
  induction hreach with
  | here frame s =>
    have hfirst : stop = first := by
      have := h.le
      omega
    subst hfirst
    exact ⟨frame, s, [], [], .here frame s, .here frame s, rfl⟩
  | @step frame _ _ position position₁ s _ _ i requests hne hi hround hrest ih =>
    by_cases hfirst : position = first
    · subst hfirst
      exact ⟨frame, s, [], _, .here frame s, .step hne hi hround hrest, rfl⟩
    · have hnext : position₁ ≤ first ∨ stop < position₁ :=
        h.outside_of_round hi (by omega) hround
      obtain ⟨frame₁, s₁, before, during, hbefore, hduring, rfl⟩ := ih hnext
      exact ⟨frame₁, s₁, _, during, .step hfirst hi hround hbefore, hduring,
        (List.append_assoc _ _ _).symm⟩

end Body

end TraceWeave
