import TraceWeave.Proofs.Weave.Positions
import TraceWeave.Proofs.Weave.Woven

/-!
# Woven bodies do what they did

A run of a woven body follows a run of the body before weaving, slot by slot
(`Layout.Weaves.checkedFrom_follows`).  The invariant that carries the induction is that the second
run is at the start of the slot of the instruction that the first one is at, and that the frames
agree on settled names.  Every round of the first run is one slot of the second one, which takes
several rounds, so the rounds of the second run are only asked to grow with the limit.
-/

namespace TraceWeave

/-! ## Single instructions -/

/-- The second run goes on at the start of the slot where the first one goes on. -/
inductive Control.Alike (y : Layout) (b b' : Body) : Control → Control → Prop
  | next {frame frame' : Frame} {k : Nat} (hframe : Frame.Keeps b'.locals b.locals frame frame')
      (hk : k ≤ b.instrs.length) : Alike y b b' (.next frame k) (.next frame' (y.start k))
  | finish (result : Option Value) : Alike y b b' (.finish result) (.finish result)

theorem Frame.Keeps.assign {final locals : List Local} {frame frame' : Frame}
    (h : Frame.Keeps final locals frame frame') (name : String) (v : Value) :
    Frame.Keeps final locals (frame.assign name v) (frame'.assign name v) := by
  intro n hn
  rw [get?_assign, get?_assign, h n hn]

theorem Frame.Keeps.agreeOn_names {final locals : List Local} {frame frame' : Frame}
    (h : Frame.Keeps final locals frame frame') {names : List String}
    (hnames : ∀ n ∈ names, Declares locals n) : Frame.AgreeOn names frame frame' :=
  fun n hn => h n ((hnames n hn).settled final)

section

variable {calls calls' : Nat → Call} {y : Layout} {b b' : Body} {frame frame' : Frame}

/-- A jump leads to the start of the slot to which it led before weaving. -/
theorem Layout.Weaves.jump_follows (h : y.Weaves b b') (hb : b.defect? = none)
    (hnodup : b'.labels.Nodup) (hframe : Frame.Keeps b'.locals b.locals frame frame') {t : Label}
    (ht : t ∈ b.targets) :
    Follows (Control.Alike y b b') (fun _ => b.jump frame t)
      (fun _ => b'.jump frame' (y.destination t)) := by
  obtain ⟨k, hlt, hposition, hposition'⟩ := h.lays.jumpPosition?_of_mem_targets
    (h.slots.imp fun _ _ hs => hs.carried) hb hnodup ht
  simp only [Body.jump, hposition, hposition']
  exact .pure (.next hframe hlt.le)

variable (hcalls : CallsFollow calls calls')

include hcalls

/-- An instruction that stayed as it was, up to its jump, does the same. -/
theorem Operation.checkedExecute_follows (h : y.Weaves b b') (hb : b.defect? = none)
    (hnodup : b'.labels.Nodup) {k : Nat} (hk : k < b.instrs.length) {position : Nat}
    (hposition : position + 1 = y.start (k + 1)) {op : Operation}
    (ht : ∀ t, op.target? = some t → t ∈ b.targets) (hnames : ∀ n ∈ op.names, Declares b.locals n)
    (hframe : Frame.Keeps b'.locals b.locals frame frame') :
    Follows (Control.Alike y b b') (fun limit => op.checkedExecute (calls limit) b frame k)
      (fun limit => (op.retarget y.destination).checkedExecute (calls' limit) b' frame'
        position) := by
  have hagree := hframe.agreeOn_names hnames
  have hnext : ∀ {g g' : Frame}, Frame.Keeps b'.locals b.locals g g' →
      Control.Alike y b b' (.next g (k + 1)) (.next g' (position + 1)) := by
    intro g g' hg
    rw [hposition]
    exact .next hg hk
  cases op with
  | assign target value =>
    cases target with
    | var x =>
      have hvalue := value.eval_follows hcalls fun n hn => hagree n (by simp [names, hn])
      exact hvalue.bind_eq fun v => .pure (hnext (hframe.assign x.name v))
    | field f =>
      refine (value.eval_follows hcalls hagree).bind_eq fun v => ?_
      refine Follows.bind_eq (.modify fun s s' hs => ?_) fun _ => .pure (hnext hframe)
      exact ⟨by simp only [hs.statics], hs.calls, hs.hostCalls, hs.initialized⟩
  | branch condition target =>
    refine (condition.checkedTree_follows hcalls hagree).bind_eq fun t => ?_
    refine (Follows.operator frame frame').bind_eq fun holds => ?_
    cases holds with
    | true => exact h.jump_follows hb hnodup hframe (ht target rfl)
    | false => exact .pure (hnext hframe)
  | goto target => exact h.jump_follows hb hnodup hframe (ht target rfl)
  | invoke callee args =>
    refine (Expr.evalAll_follows hcalls args hagree).bind_eq fun values => ?_
    exact (hcalls callee values).bind_eq fun _ => .pure (hnext hframe)
  | ret value =>
    cases value with
    | none => exact .pure (.finish none)
    | some value =>
      exact (value.eval_follows hcalls hagree).bind_eq fun v => .pure (.finish (some v))
  | probe p => exact (Probe.fire_follows hagree).bind_eq fun _ => .pure (hnext hframe)
  | nop => exact .pure (hnext hframe)

end

/-! ## Rounds -/

/-- Goes on with a run after an instruction. -/
def Body.resume (limit : Nat) (call : Call) (b : Body) (rounds : Nat) :
    Control → MachineM (Option Value)
  | .next frame position => b.checkedFrom limit call rounds frame position
  | .finish result => return result

theorem Body.checkedFrom_succ {b : Body} {position : Nat} {i : Instr}
    (hi : b.instrs[position]? = some i) (limit : Nat) (call : Call) (rounds : Nat) (frame : Frame) :
    b.checkedFrom limit call (rounds + 1) frame position =
      countStep limit frame >>= fun _ => i.op.checkedExecute call b frame position >>=
        b.resume limit call rounds := by
  rw [checkedFrom, hi]
  refine bind_congr fun _ => bind_congr fun control => ?_
  cases control <;> rfl

theorem Body.checkedFrom_of_none {b : Body} {position : Nat} (hi : b.instrs[position]? = none)
    (limit : Nat) (call : Call) (rounds : Nat) (frame : Frame) :
    b.checkedFrom limit call (rounds + 1) frame position = pure none := by
  rw [checkedFrom, hi]

/-- A run through a straight line and the instruction after it. -/
theorem Body.checkedFrom_line_succ {b : Body} {position : Nat} {ops : List Operation} {i : Instr}
    (hops : ∀ op ∈ ops, op.IsStraight) (hat : b.At position ops)
    (hi : b.instrs[position + ops.length]? = some i) (limit : Nat) (call : Call) {rounds : Nat}
    (hrounds : ops.length + 1 ≤ rounds) (frame : Frame) :
    b.checkedFrom limit call rounds frame position =
      (runLine limit call ops frame >>= fun p => countStep limit p.1 >>= fun _ =>
        i.op.checkedExecute call b p.1 (position + ops.length)) >>=
        b.resume limit call (rounds - (ops.length + 1)) := by
  have hsplit : rounds = (rounds - (ops.length + 1) + 1) + ops.length := by omega
  conv_lhs => rw [hsplit]
  rw [checkedFrom_line hops hat, bind_assoc]
  refine bind_congr fun p => ?_
  rw [checkedFrom_succ hi, bind_assoc]

/-! ## Slots -/

theorem Operation.isStraight_of_isMark {op : Operation} (h : op.isMark) : op.IsStraight := by
  cases op with
  | probe p => trivial
  | _ => cases h

theorem Operation.IsPart.isStraight {site : BranchSite} {op : Operation} (h : op.IsPart site) :
    op.IsStraight := by
  rcases h with ⟨x, value, rfl⟩ | ⟨x, source, rfl⟩ | ⟨x, binary, y, rfl⟩ <;> trivial

/-- What was woven in before an instruction is a straight line. -/
theorem Instr.Woven.isStraight {declared available : List Local} {i : Instr} {s : Slot}
    (h : i.Woven declared available s) : ∀ op ∈ s.ops, op.IsStraight := by
  intro op hop
  rcases h with ⟨-, hmarks⟩ | ⟨site, marks, ops, hmarks, hops, hdecomposed⟩
  · exact Operation.isStraight_of_isMark (hmarks op hop)
  · obtain ⟨condition, target, before, r, -, -, hr, -, rfl, -⟩ := hdecomposed
    rw [hops, List.mem_append, List.mem_append, List.mem_singleton] at hop
    rcases hop with hop | hop | rfl
    · exact Operation.isStraight_of_isMark (hmarks op hop)
    · exact (isPart_of_mem_script hr op hop).isStraight
    · trivial

/-- Marks do not change the frame. -/
theorem runLine_marks_follows (calls' : Nat → Call) {ops : List Operation}
    (hops : ∀ op ∈ ops, op.isMark) (frame : Frame) :
    Follows (fun (_ : Unit) q => q.1 = frame) (fun _ => pure ())
      (fun limit => runLine limit (calls' limit) ops frame) := by
  induction ops with
  | nil => exact .pure rfl
  | cons op rest ih =>
    obtain ⟨p, hp, r, hr⟩ : ∃ p, op = .probe p ∧ ∃ r, p.request? frame = some r := by
      have hmark := hops op (by simp)
      cases op with
      | probe p => cases p <;> first | exact ⟨_, rfl, _, rfl⟩ | cases hmark
      | _ => cases hmark
    subst hp
    have happend : ∀ limit, runLine limit (calls' limit) (.probe p :: rest) frame =
        runLine limit (calls' limit) ([.probe p] ++ rest) frame := fun _ => rfl
    simp only [happend, runLine_append]
    refine (runLine_probe_follows hr).bind_right fun q hq => ?_
    subst hq
    refine (ih fun op hop => hops op (by simp [hop])).bind_right fun q hq => ?_
    exact .pure hq

/-- What is left of a condition is evaluated like any expression. -/
theorem checkedTree_rest_of_script {site : BranchSite} {e : Expr} {locals : List Local}
    {s : Script} (h : script site e locals = .ok s) {β : Type} (call : Call) (frame : Frame)
    (f : Value → MachineM β) :
    (s.rest.checkedTree call frame >>= fun t => f t.root) = s.rest.eval call frame >>= f := by
  rcases script_rest_cases h with ⟨op, l, r, rfl⟩ | ⟨-, x, hrest⟩
  · obtain ⟨t, u, -, -, -, rfl⟩ := script_binary_eq_ok h
    simp [Script.ofBinary, Expr.checkedTree, Expr.eval, ValueTree.root]
  · simp [hrest, Expr.checkedTree, ValueTree.root]

section

variable {calls calls' : Nat → Call} {y : Layout} {b b' : Body} {frame frame' : Frame}
  (hcalls : CallsFollow calls calls')

include hcalls

/-- Before a branch whose condition was decomposed, the second run computes the condition, which the
first run does as part of the branch. -/
theorem Layout.Weaves.decomposed_follows (h : y.Weaves b b') (hb : b.Regular)
    (hnodup : b'.labels.Nodup) {k : Nat} {i i' : Instr} (hi : b.instrs[k]? = some i)
    {site : BranchSite} {ops : List Operation}
    (hdecomposed : i.Decomposed site b.locals b'.locals ops i') {position : Nat}
    (hposition : position + 1 = y.start (k + 1))
    (hframe : Frame.Keeps b'.locals b.locals frame frame') :
    Follows (Control.Alike y b b') (fun limit => i.op.checkedExecute (calls limit) b frame k)
      (fun limit => runLine limit (calls' limit) ops frame' >>= fun p =>
        countStep limit p.1 >>= fun _ =>
          (i'.op.retarget y.destination).checkedExecute (calls' limit) b' p.1 position) := by
  have hmem : i ∈ b.instrs := List.mem_of_getElem? hi
  obtain ⟨condition, target, before, r, hop, hbefore, hr, hlocals, rfl, rfl⟩ := hdecomposed
  have hnames := hb.declares i hmem
  have hneg := hb.negates i hmem
  rw [hop] at hnames hneg ⊢
  have hscript := (condition.script_follows hcalls hneg hr
    (fun n hn => ((hnames n hn).mono hbefore).settled b'.locals) hlocals
    (hframe.agreeOn_names hnames)).bind
    (S := Control.Alike y b b')
    (f := fun _ t => frame.operator t.root.truth >>= fun holds =>
      if holds then b.jump frame target else pure (.next frame (k + 1)))
    (g := fun _ q => q.1.1.operator q.2.truth >>= fun holds =>
      if holds then b'.jump q.1.1 (y.destination target)
      else pure (.next q.1.1 (position + 1))) fun t q hq => ?_
  · have hrest : ∀ (limit : Nat) (g : Frame),
        ((Operation.branch r.rest target).retarget y.destination).checkedExecute (calls' limit) b' g
          position = r.rest.eval (calls' limit) g >>= fun v => g.operator v.truth >>=
            fun holds => if holds then b'.jump g (y.destination target)
              else pure (.next g (position + 1)) :=
      fun limit g => checkedTree_rest_of_script hr (calls' limit) g fun v =>
        g.operator v.truth >>= fun holds => if holds then b'.jump g (y.destination target)
          else pure (.next g (position + 1))
    simp only [bind_assoc, pure_bind, hrest] at hscript ⊢
    exact hscript
  · rw [hq.value]
    refine (Follows.operator frame q.1.1).bind_eq fun holds => ?_
    have hkeeps := hframe.trans hbefore hq.keeps
    cases holds with
    | true =>
      exact h.jump_follows hb.consistent hnodup hkeeps
        (Body.mem_targets.2 ⟨i, hmem, by rw [hop]; rfl⟩)
    | false =>
      rw [hposition]
      exact .pure (.next hkeeps (List.getElem?_eq_some_iff.1 hi).1)

/-- A slot does what its instruction did before weaving. -/
theorem Layout.Weaves.slot_follows (h : y.Weaves b b') (hb : b.Regular) (hnodup : b'.labels.Nodup)
    {k : Nat} {i : Instr} (hi : b.instrs[k]? = some i) {s : Slot} (hs : y.slots[k]? = some s)
    (hwoven : i.Woven b.locals b'.locals s) (hframe : Frame.Keeps b'.locals b.locals frame frame') :
    Follows (Control.Alike y b b')
      (fun limit => countStep limit frame >>= fun _ => i.op.checkedExecute (calls limit) b frame k)
      (fun limit => runLine limit (calls' limit) s.ops frame' >>= fun p =>
        countStep limit p.1 >>= fun _ =>
          (s.instr.op.retarget y.destination).checkedExecute (calls' limit) b' p.1
            (y.start k + s.ops.length)) := by
  have hmem : i ∈ b.instrs := List.mem_of_getElem? hi
  have hposition : y.start k + s.ops.length + 1 = y.start (k + 1) := by
    rw [start_succ hs, Slot.ops, List.length_map]
  rcases hwoven with ⟨rfl, hmarks⟩ | ⟨site, marks, ops, hmarks, hops, hdecomposed⟩
  · refine (runLine_marks_follows calls' hmarks frame').bind_right fun q hq => ?_
    rw [hq]
    refine (Follows.countStep frame frame').bind_eq fun _ => ?_
    exact Operation.checkedExecute_follows hcalls h hb.consistent hnodup
      (List.getElem?_eq_some_iff.1 hi).1 hposition
      (fun t ht => Body.mem_targets.2 ⟨s.instr, hmem, ht⟩) (hb.declares s.instr hmem) hframe
  · -- The step that the first run counts has no counterpart before the branch.
    refine (Follows.countStep_left frame).bind_left fun _ _ => ?_
    rw [hops] at hposition ⊢
    simp only [runLine_append _ _ marks, bind_assoc]
    refine (runLine_marks_follows calls' hmarks frame').bind_right fun q hq => ?_
    rw [hq]
    simp only [pure_bind]
    exact h.decomposed_follows hcalls hb hnodup hi hdecomposed hposition hframe

/-! ## Runs -/

omit hcalls in
/-- At the end, a woven body returns without a value. -/
theorem Layout.Weaves.end_follows (h : y.Weaves b b') (frame' : Frame) {rounds' : Nat → Nat}
    (hrounds : Filter.Tendsto rounds' Filter.atTop Filter.atTop) :
    Follows Eq (fun _ => pure none) (fun limit =>
      b'.checkedFrom limit (calls' limit) (rounds' limit) frame' (y.start y.slots.length)) := by
  have hdrop := h.lays.drop_start_length
  rcases h.closing with hclosing | ⟨l, mark, l', hmark, hclosing⟩
  · have hend : b'.instrs[y.start y.slots.length]? = none := by
      rw [← Nat.add_zero (y.start _), ← List.getElem?_drop, hdrop, hclosing]
      rfl
    have hpure : Follows Eq (fun _ => pure (none : Option Value)) (fun _ => pure none) :=
      .pure rfl
    refine hpure.congr_right ?_
    filter_upwards [hrounds.eventually_ge_atTop 1] with limit hlimit
    obtain ⟨n, hn⟩ := Nat.exists_eq_add_of_le hlimit
    rw [hn, Nat.add_comm]
    exact Body.checkedFrom_of_none hend _ _ _ _
  · have hat : b'.At (y.start y.slots.length) [mark] := by
      refine ⟨[.ret none], ?_⟩
      rw [hdrop, hclosing]
      rfl
    have hret : b'.instrs[y.start y.slots.length + 1]? = some (wovenInstr (l', .ret none)) := by
      rw [← List.getElem?_drop, hdrop, hclosing]
      rfl
    have hmarks : ∀ op ∈ [mark], Operation.isMark op := by simpa using hmark
    have hline := (runLine_marks_follows calls' hmarks frame').bind_right
      (S := Eq) (z := fun _ => pure (none : Option Value)) (g := fun limit p =>
        countStep limit p.1 >>= fun _ => pure none) fun p _ =>
          (Follows.countStep_right p.1).bind_right fun _ _ => .pure rfl
    refine hline.congr_right ?_
    filter_upwards [hrounds.eventually_ge_atTop 2] with limit hlimit
    rw [Body.checkedFrom_line_succ (fun op hop => Operation.isStraight_of_isMark (hmarks op hop))
      hat hret limit (calls' limit) hlimit frame']
    simp only [bind_assoc, wovenInstr_op, Operation.checkedExecute, Operation.execute, pure_bind]
    rfl

/-- A run of a woven body follows the run of the body before weaving. -/
theorem Layout.Weaves.checkedFrom_follows (h : y.Weaves b b') (hb : b.Regular)
    (hnodup : b'.labels.Nodup) (rounds : Nat) {k : Nat} (hk : k ≤ b.instrs.length)
    (hframe : Frame.Keeps b'.locals b.locals frame frame') {rounds' : Nat → Nat}
    (hrounds : Filter.Tendsto rounds' Filter.atTop Filter.atTop) :
    Follows Eq (fun limit => b.checkedFrom limit (calls limit) rounds frame k)
      (fun limit => b'.checkedFrom limit (calls' limit) (rounds' limit) frame' (y.start k)) := by
  induction rounds generalizing k frame frame' rounds' with
  | zero => exact fun limit s _ _ => .inl ⟨_, s, rfl, limit, rfl⟩
  | succ rounds ih =>
    rcases hk.lt_or_eq with hlt | rfl
    · have hi : b.instrs[k]? = some b.instrs[k] := List.getElem?_eq_getElem hlt
      have hlt' : k < y.slots.length := h.slots.length_eq ▸ hlt
      have hs : y.slots[k]? = some y.slots[k] := List.getElem?_eq_getElem hlt'
      set s := y.slots[k]
      have hwoven : b.instrs[k].Woven b.locals b'.locals s := h.slots.get hlt hlt'
      have hslot := (h.slot_follows hcalls hb hnodup hi hs hwoven hframe).bind (S := Eq)
        (f := fun limit => b.resume limit (calls limit) rounds)
        (g := fun limit => b'.resume limit (calls' limit) (rounds' limit - (s.ops.length + 1)))
        fun c c' hc => by
          cases hc with
          | next hframe hk =>
            exact ih hk hframe ((Filter.tendsto_sub_atTop_nat _).comp hrounds)
          | finish result => exact .pure rfl
      simp only [Body.checkedFrom_succ hi]
      simp only [bind_assoc] at hslot ⊢
      refine hslot.congr_right ?_
      filter_upwards [hrounds.eventually_ge_atTop (s.ops.length + 1)] with limit hlimit
      rw [Body.checkedFrom_line_succ hwoven.isStraight (h.lays.at_start hs)
        (h.lays.getElem?_instr hs) limit (calls' limit) hlimit frame']
      simp only [bind_assoc]
      rfl
    · have hend : b.instrs[b.instrs.length]? = none := by simp
      simp only [Body.checkedFrom_of_none hend]
      rw [h.slots.length_eq]
      exact h.end_follows frame' hrounds

end

end TraceWeave
