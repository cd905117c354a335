import TraceWeave.Proofs.Machine.Block
import Mathlib.Data.List.DropRight
import Mathlib.Data.List.Infix

/-!
# Watched runs

`Body.watch` runs a body like the machine does and notes which instructions are executed.  What can
be noted is a walk through the body (`Body.Walks`): control goes from an instruction to the next one
or to where it jumps, until the method returns, falls off the end of the body, or fails.

A block is a straight line that no jump leads into.  So when a walk comes to an instruction of a
block, it has come through all instructions of the block before it (`Body.Walks.line_suffix`), and
from there it goes on to the end of the block unless it fails (`Body.Walks.to_stop`).
-/

namespace TraceWeave

/-- A run of a body, as it can be watched. -/
structure Run where
  /-- The labels of the instructions that are executed, in order. -/
  labels : List Label
  /-- What the run comes to. -/
  result : EStateM.Result Fault MachineState (Option Value)

/-- Whether a run stops with a fault. -/
def Run.faults (run : Run) : Bool :=
  match run.result with
  | .ok _ _ => false
  | .error _ _ => true

namespace Body

/-- Runs a body from a position and notes the labels of the instructions that are executed.  One
that fails is executed too; one that the budget has no room for is not. -/
def watch (limit : Nat) (call : Call) (b : Body) : Nat → Frame → Nat → MachineState → Run
  | 0, frame, _, s => ⟨[], frame.fail (.stepLimit limit) s⟩
  | rounds + 1, frame, position, s =>
    match b.instrs[position]? with
    | none => ⟨[], .ok none s⟩
    | some i =>
      match countStep limit frame s with
      | .error f s => ⟨[], .error f s⟩
      | .ok _ s =>
        match i.op.execute call b frame position s with
        | .error f s => ⟨[i.label], .error f s⟩
        | .ok (.finish result) s => ⟨[i.label], .ok result s⟩
        | .ok (.next frame position) s =>
          let rest := b.watch limit call rounds frame position s
          ⟨i.label :: rest.labels, rest.result⟩

/-- A watched run comes to what the machine comes to. -/
theorem result_watch (limit : Nat) (call : Call) (b : Body) (rounds : Nat) (frame : Frame)
    (position : Nat) (s : MachineState) :
    (b.watch limit call rounds frame position s).result =
      b.runFrom limit call rounds frame position s := by
  induction rounds generalizing frame position s with
  | zero => rfl
  | succ rounds ih =>
    unfold watch runFrom
    cases b.instrs[position]? with
    | none => rfl
    | some i =>
      dsimp only
      cases hcount : countStep limit frame s with
      | error f s₁ => rw [bind_of_error _ hcount]
      | ok u s₁ =>
        rw [bind_of_ok _ hcount]
        dsimp only
        cases hexecute : i.op.execute call b frame position s₁ with
        | error f s₂ => rw [bind_of_error _ hexecute]
        | ok control s₂ =>
          rw [bind_of_ok _ hexecute]
          cases control with
          | next frame' position' => exact ih frame' position' s₂
          | finish result => rfl

/-- The machine runs the body of a method that it calls as a watched run from the entry. -/
theorem execute_eq_watch (setup : Setup) (depth : Nat) (owner : String) (m : Method)
    (args : List Value) (hargs : args.length = m.params.length) :
    setup.execute (depth + 1) owner m args = (do
      Setup.openFrame
      let result ← fun s => (m.body.watch setup.stepLimit (setup.dispatch (setup.execute depth))
        (setup.stepLimit + 1) ⟨m.signature owner, .ofList ((m.params.map (·.name)).zip args)⟩ 0
        s).result
      Setup.closeFrame
      return result) := by
  simp only [Setup.execute, result_watch]
  exact if_neg (not_not.2 hargs)

/-- A walk through a body from a position on: the labels of the instructions that it comes to, and
whether it fails in the end. -/
inductive Walks (b : Body) : Nat → List Label → Bool → Prop
  | stuck {position : Nat} : Walks b position [] true
  | fallOff {position : Nat} (hend : b.instrs[position]? = none) : Walks b position [] false
  | fail {position : Nat} {i : Instr} (hi : b.instrs[position]? = some i) :
      Walks b position [i.label] true
  | finish {position : Nat} {i : Instr} (hi : b.instrs[position]? = some i)
      (hreturn : i.op.isReturn = true) : Walks b position [i.label] false
  | step {position position' : Nat} {frame : Frame} {i : Instr} {labels : List Label}
      {fails : Bool} (hi : b.instrs[position]? = some i)
      (hgoes : i.op.GoesOn b position (.next frame position'))
      (hrest : Walks b position' labels fails) : Walks b position (i.label :: labels) fails

/-- What is watched is a walk. -/
theorem walks_watch (limit : Nat) (call : Call) (b : Body) (rounds : Nat) (frame : Frame)
    (position : Nat) (s : MachineState) :
    b.Walks position (b.watch limit call rounds frame position s).labels
      (b.watch limit call rounds frame position s).faults := by
  induction rounds generalizing frame position s with
  | zero => exact .stuck
  | succ rounds ih =>
    unfold watch
    cases hi : b.instrs[position]? with
    | none => exact .fallOff hi
    | some i =>
      dsimp only
      cases countStep limit frame s with
      | error f s₁ => exact .stuck
      | ok u s₁ =>
        dsimp only
        cases hexecute : i.op.execute call b frame position s₁ with
        | error f s₂ => exact .fail hi
        | ok control s₂ =>
          have hgoes := Operation.goesOn_of_execute hexecute
          cases control with
          | next frame' position' => exact .step hi hgoes (ih frame' position' s₂)
          | finish result =>
            cases hgoes with
            | finish hreturn => exact .finish hi hreturn

variable {b : Body} {position : Nat} {labels before after : List Label} {l : Label} {fails : Bool}

/-- What a walk comes to first stands where it begins. -/
theorem Walks.getElem?_position (h : b.Walks position (l :: after) fails) :
    b.labels[position]? = some l := by
  cases h with
  | fail hi => exact getElem?_labels hi
  | finish hi => exact getElem?_labels hi
  | step hi => exact getElem?_labels hi

/-- The rest of a walk is a walk. -/
theorem Walks.exists_rest (h : b.Walks position (before ++ l :: after) fails) :
    ∃ position', b.Walks position' (l :: after) fails := by
  induction before generalizing position with
  | nil => exact ⟨position, h⟩
  | cons m before ih =>
    cases hsplit : before ++ l :: after with
    | nil => simp at hsplit
    | cons m' rest =>
      rw [List.cons_append, hsplit] at h
      cases h with
      | step hi hgoes hrest => exact ih (hsplit ▸ hrest)

/-! ## Executed operations -/

/-- The operations of the instructions with some labels. -/
def opsOf (b : Body) (labels : List Label) : List Operation :=
  labels.filterMap fun l => (b.get? l).map (·.op)

section

variable (hnodup : b.labels.Nodup)

include hnodup

/-- Where labels are distinct, a label names the instruction that has it. -/
theorem get?_label {i : Instr} (hi : i ∈ b.instrs) : b.get? i.label = some i := by
  have hsome : (b.get? i.label).isSome := List.find?_isSome.2 ⟨i, hi, beq_self_eq_true _⟩
  obtain ⟨j, hj⟩ := Option.isSome_iff_exists.1 hsome
  have hlabel : j.label = i.label := by simpa using List.find?_some hj
  obtain rfl : j = i := List.inj_on_of_nodup_map hnodup (List.mem_of_find?_eq_some hj) hi hlabel
  exact hj

theorem opsOf_map_label {l : List Instr} (hl : ∀ i ∈ l, i ∈ b.instrs) :
    b.opsOf (l.map (·.label)) = l.map (·.op) := by
  rw [opsOf, List.filterMap_map, ← List.filterMap_eq_map]
  refine List.filterMap_congr fun i hi => ?_
  rw [Function.comp_apply, get?_label hnodup (hl i hi), Option.map_some, Function.comp_apply]

theorem opsOf_cons {i : Instr} (hi : b.instrs[position]? = some i) (labels : List Label) :
    b.opsOf (i.label :: labels) = i.op :: b.opsOf labels :=
  List.filterMap_cons_some (by rw [get?_label hnodup (List.mem_of_getElem? hi), Option.map_some])

end

/-! ## Blocks -/

/-- The labels of a body from one position up to another. -/
def line (b : Body) (first stop : Nat) : List Label := (b.labels.take stop).drop first

theorem line_self (b : Body) (first : Nat) : b.line first first = [] := by simp [line]

theorem line_succ {first stop : Nat} (hle : first ≤ stop) (hl : b.labels[stop]? = some l) :
    b.line first (stop + 1) = b.line first stop ++ [l] := by
  have hlt := (List.getElem?_eq_some_iff.1 hl).1
  rw [line, List.take_add_one, hl, Option.toList_some, List.drop_append_of_le_length]
  · rfl
  · rw [List.length_take]
    omega

theorem line_eq_cons {first stop : Nat} (hlt : first < stop) (hl : b.labels[first]? = some l) :
    b.line first stop = l :: b.line (first + 1) stop := by
  obtain ⟨hlength, rfl⟩ := List.getElem?_eq_some_iff.1 hl
  rw [line, List.drop_eq_getElem_cons (by rw [List.length_take]; omega), List.getElem_take]
  rfl

theorem mem_line {first stop : Nat} :
    l ∈ b.line first stop ↔ ∃ k, first ≤ k ∧ k < stop ∧ b.labels[k]? = some l := by
  rw [line, List.mem_iff_getElem?]
  simp only [List.getElem?_drop, List.getElem?_take]
  constructor
  · rintro ⟨n, hn⟩
    split at hn
    · next hlt => exact ⟨first + n, by omega, hlt, hn⟩
    · cases hn
  · rintro ⟨k, hfirst, hstop, hl⟩
    exact ⟨k - first, by rwa [Nat.add_sub_cancel' hfirst, if_pos hstop]⟩

section

variable {first stop : Nat} (hblock : b.Block first stop) (hnodup : b.labels.Nodup)

include hblock

/-- Within a block, control goes on to the next instruction. -/
theorem Block.position_of_goesOn {i : Instr} {frame : Frame} {position' : Nat}
    (hi : b.instrs[position]? = some i) (hfirst : first ≤ position) (hstop : position < stop)
    (hgoes : i.op.GoesOn b position (.next frame position')) : position' = position + 1 := by
  have hstraight := hblock.straight position i hfirst hstop hi
  cases hgoes with
  | step _ => rfl
  | jump htarget _ =>
    rw [Operation.IsStraight.target?_eq hstraight] at htarget
    cases htarget

/-- Control comes to an instruction within a block only from the one before it. -/
theorem Block.position_eq_of_goesOn {i : Instr} {frame : Frame} {position' : Nat}
    (hi : b.instrs[position]? = some i) (hfirst : first < position') (hstop : position' ≤ stop)
    (hgoes : i.op.GoesOn b position (.next frame position')) : position' = position + 1 := by
  cases hgoes with
  | step _ => rfl
  | jump htarget hposition =>
    have hmem := mem_targets.2 ⟨i, List.mem_of_getElem? hi, htarget⟩
    have houtside := hblock.closed _ hmem _ hposition
    omega

include hnodup

/-- What a walk comes to right before an instruction within a block is the one before that. -/
theorem Walks.exists_last (h : b.Walks position (before ++ l :: after) fails)
    (houtside : position ≤ first ∨ stop < position) {k : Nat} (hfirst : first ≤ k)
    (hstop : k < stop) (hl : b.labels[k + 1]? = some l) :
    ∃ before' m, before = before' ++ [m] ∧ b.labels[k]? = some m := by
  induction before using List.reverseRecOn generalizing l after with
  | nil =>
    have hposition := eq_of_getElem?_eq_some hnodup hl h.getElem?_position
    omega
  | append_singleton before m _ =>
    refine ⟨before, m, rfl, ?_⟩
    rw [List.append_assoc, List.singleton_append] at h
    obtain ⟨position₁, h⟩ := h.exists_rest
    have hm := h.getElem?_position
    cases h with
    | step hi hgoes hrest =>
      have hposition := eq_of_getElem?_eq_some hnodup hl hrest.getElem?_position
      have hnext := hblock.position_eq_of_goesOn hi (by omega) (by omega) hgoes
      obtain rfl : k = position₁ := by omega
      exact hm

/-- A walk that comes to an instruction of a block has come through all of the block before it. -/
theorem Walks.line_suffix (h : b.Walks position (before ++ l :: after) fails)
    (houtside : position ≤ first ∨ stop < position) {k : Nat} (hfirst : first ≤ k)
    (hstop : k ≤ stop) (hl : b.labels[k]? = some l) : b.line first k <:+ before := by
  induction k, hfirst using Nat.le_induction generalizing l before after with
  | base =>
    rw [line_self]
    exact List.nil_suffix
  | succ k hfirst ih =>
    obtain ⟨before, m, rfl, hm⟩ := h.exists_last hblock hnodup houtside hfirst hstop hl
    rw [List.append_assoc, List.singleton_append] at h
    obtain ⟨front, hfront⟩ := ih h (by omega) hm
    rw [line_succ hfirst hm]
    exact ⟨front, by rw [← hfront, List.append_assoc]⟩

omit hnodup

/-- A walk from within a block goes through the rest of the block, unless it fails before. -/
theorem Walks.to_stop (h : b.Walks position labels fails) (hfirst : first ≤ position)
    (hstop : position ≤ stop) {last : Label} (hlast : b.labels[stop]? = some last) :
    b.line position stop ++ [last] <+: labels ∨ labels <+: b.line position stop ∧ fails = true := by
  -- At the end of the block, the walk comes to its last instruction.
  have hend {i : Instr} {rest : List Label} (hi : b.instrs[stop]? = some i) :
      b.line stop stop ++ [last] <+: i.label :: rest := by
    obtain rfl : last = i.label := Option.some.inj (hlast.symm.trans (getElem?_labels hi))
    rw [line_self]
    exact ⟨rest, rfl⟩
  induction h with
  | stuck => exact .inr ⟨List.nil_prefix, rfl⟩
  | @fallOff position hnone =>
    have hlt := (List.getElem?_eq_some_iff.1 hlast).1
    rw [Body.labels, List.length_map] at hlt
    rw [List.getElem?_eq_none_iff] at hnone
    omega
  | @fail position i hi =>
    rcases Nat.lt_or_eq_of_le hstop with hlt | rfl
    · rw [line_eq_cons hlt (getElem?_labels hi)]
      exact .inr ⟨⟨_, rfl⟩, rfl⟩
    · exact .inl (hend hi)
  | @finish position i hi hreturn =>
    rcases Nat.lt_or_eq_of_le hstop with hlt | rfl
    · have hstraight := hblock.straight position i hfirst hlt hi
      have hterminator := Operation.IsStraight.isTerminator_eq hstraight
      cases hop : i.op <;> rw [hop] at hreturn hterminator <;> cases hreturn
      cases hterminator
    · exact .inl (hend hi)
  | @step position position' frame i labels fails hi hgoes hrest ih =>
    rcases Nat.lt_or_eq_of_le hstop with hlt | rfl
    · obtain rfl := hblock.position_of_goesOn hi hfirst hlt hgoes
      rw [line_eq_cons hlt (getElem?_labels hi), List.cons_append, List.cons_prefix_cons,
        List.cons_prefix_cons]
      exact (ih (by omega) hlt).imp (fun h => ⟨rfl, h⟩) fun h => ⟨⟨rfl, h.1⟩, h.2⟩
    · exact .inl (hend hi)

end

end Body

/-- The operations that a run of a body executes, in order. -/
def Run.ops (run : Run) (b : Body) : List Operation := b.opsOf run.labels

end TraceWeave
