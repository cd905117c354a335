import TraceWeave.Proofs.Machine.Block
import TraceWeave.Proofs.Weave.Positions
import TraceWeave.Proofs.Weave.ProductPhase
import TraceWeave.Proofs.Weave.Telling

/-!
# Field probes in straight lines

The field weaver runs after the product weaver, so its probes also come to stand among what the
product weaver has inserted.  A straight line stays one (`Layout.Lays.exists_line`), and running it
comes to the same, the reports of field reads left aside (`runLine_filter_follows`).  What was woven
in before an instruction makes a block with those field probes (`ProductPhase.exists_block`).
-/

namespace TraceWeave

/-- A probe at the read of a field. -/
def Operation.isFieldRead : Operation → Bool
  | .probe (.fieldRead ..) => true
  | _ => false

/-- The report of the read of a field. -/
def RecorderRequest.isFieldAccess : RecorderRequest → Bool
  | .event (.fieldAccessed ..) => true
  | _ => false

theorem Operation.exists_fieldRead {op : Operation} (h : op.isFieldRead) :
    ∃ file line field, op = .probe (.fieldRead file line field) := by
  cases op with
  | probe p => cases p <;> first | exact ⟨_, _, _, rfl⟩ | cases h
  | _ => cases h

theorem Operation.filter_requests {op : Operation} (h : op.isFieldRead = false) (frame : Frame) :
    (op.requests frame).filter (fun r => !r.isFieldAccess) = op.requests frame := by
  rw [List.filter_eq_self]
  intro r hr
  cases op with
  | probe p =>
    simp only [requests, Option.mem_toList] at hr
    cases p with
    | capture file line x source =>
      obtain ⟨v, -, rfl⟩ := Option.map_eq_some_iff.1 hr
      rfl
    | fieldRead file line field => cases h
    | _ => cases hr; rfl
  | _ => cases hr

/-! ## Running a line with field probes -/

section

variable {calls calls' : Nat → Call} (hcalls : CallsFollow calls calls')

include hcalls

theorem Operation.line_follows (op : Operation) (frame : Frame) :
    Follows Eq (fun limit => op.line (calls limit) frame)
      (fun limit => op.line (calls' limit) frame) := by
  cases op with
  | assign target value =>
    cases target with
    | var x =>
      exact (value.eval_follows hcalls (.refl value.names frame)).bind_eq fun v => .pure rfl
    | field f => exact .pure rfl
  | probe p => exact (p.fire_follows (.refl _ frame)).bind_eq fun _ => .pure rfl
  | _ => exact .pure rfl

theorem runLine_follows (ops : List Operation) (frame : Frame) :
    Follows Eq (fun limit => runLine limit (calls limit) ops frame)
      (fun limit => runLine limit (calls' limit) ops frame) := by
  induction ops generalizing frame with
  | nil => exact .pure rfl
  | cons op rest ih =>
    simp only [runLine]
    refine (Follows.countStep frame frame).bind_eq fun _ => ?_
    refine (op.line_follows hcalls frame).bind_eq fun next => ?_
    exact (ih next).bind_eq fun p => .pure rfl

/-- Running a line comes to what running it without its field probes comes to, but for their
reports. -/
theorem runLine_filter_follows (ops : List Operation) (frame : Frame) :
    Follows (fun p q => q.1 = p.1 ∧ p.2 = q.2.filter fun r => !r.isFieldAccess)
      (fun limit => runLine limit (calls limit) (ops.filter fun op => !op.isFieldRead) frame)
      (fun limit => runLine limit (calls' limit) ops frame) := by
  induction ops generalizing frame with
  | nil => exact .pure ⟨rfl, rfl⟩
  | cons op rest ih =>
    cases hop : op.isFieldRead with
    | true =>
      obtain ⟨file, line, field, rfl⟩ := Operation.exists_fieldRead hop
      rw [List.filter_cons_of_neg (by simp [hop])]
      have happend : ∀ limit, runLine limit (calls' limit)
          (.probe (.fieldRead file line field) :: rest) frame = runLine limit (calls' limit)
            ([.probe (.fieldRead file line field)] ++ rest) frame := fun _ => rfl
      simp only [happend, runLine_append]
      refine (runLine_probe_follows rfl).bind_right fun q hq => ?_
      subst hq
      have hrest := (ih frame).bind (f := fun _ p => pure p) (g := fun _ p =>
        pure (p.1, [.event (.fieldAccessed file line field)] ++ p.2))
        (S := fun p q => q.1 = p.1 ∧ p.2 = q.2.filter fun r => !r.isFieldAccess)
        fun p q hpq => .pure ⟨hpq.1, hpq.2⟩
      simpa only [bind_pure] using hrest
    | false =>
      rw [List.filter_cons_of_pos (by simp [hop])]
      simp only [runLine]
      refine (Follows.countStep frame frame).bind_eq fun _ => ?_
      refine (op.line_follows hcalls frame).bind_eq fun next => ?_
      refine (ih next).bind fun p q hpq => .pure ⟨hpq.1, ?_⟩
      rw [List.filter_append, Operation.filter_requests hop, hpq.2]

end

/-! ## Lines among field probes -/

theorem Body.At.cons {b : Body} {position : Nat} {i : Instr} {rest : List Operation}
    (hi : b.instrs[position]? = some i) (h : b.At (position + 1) rest) :
    b.At position (i.op :: rest) := by
  obtain ⟨hlt, hget⟩ := List.getElem?_eq_some_iff.1 hi
  rw [At, List.drop_eq_getElem_cons hlt, hget, List.map_cons]
  exact List.cons_prefix_cons.2 ⟨rfl, h⟩

theorem Body.At.append {b : Body} {position : Nat} {ops ops' : List Operation}
    (h : b.At position ops) (h' : b.At (position + ops.length) ops') :
    b.At position (ops ++ ops') := by
  obtain ⟨tail, htail⟩ := h
  rw [At, ← List.drop_drop, List.map_drop, ← htail, List.drop_left] at h'
  rw [At, ← htail]
  exact (List.prefix_append_right_inj ops).2 h'

/-- Where only field probes are woven in, a straight line stays one, with field probes in it. -/
theorem Layout.Lays.exists_line {y : Layout} {b b' : Body} (hy : y.Lays b')
    (hslots : List.Forall₂ (fun i s => s.instr = i ∧ ∀ op ∈ s.ops, op.isFieldRead) b.instrs y.slots)
    {position : Nat} {ops : List Operation} (hat : b.At position ops)
    (hops : ∀ op ∈ ops, op.IsStraight ∧ op.isFieldRead = false) :
    ∃ ops', b'.At (y.start position) ops' ∧
      y.start (position + ops.length) = y.start position + ops'.length ∧
      ops'.filter (fun op => !op.isFieldRead) = ops := by
  induction ops generalizing position with
  | nil => exact ⟨[], List.nil_prefix, rfl, rfl⟩
  | cons op rest ih =>
    obtain ⟨⟨i, hi, rfl⟩, hrest⟩ := hat.head
    obtain ⟨ops', hat', hlength, hfilter⟩ := ih hrest fun op hop => hops op (by simp [hop])
    obtain ⟨hstraight, hop⟩ := hops i.op (by simp)
    obtain ⟨hlt, hget⟩ := List.getElem?_eq_some_iff.1 hi
    have hlt' : position < y.slots.length := hslots.length_eq ▸ hlt
    have hs : y.slots[position]? = some y.slots[position] := List.getElem?_eq_getElem hlt'
    set s := y.slots[position]
    obtain ⟨hinstr, hreads⟩ : s.instr = i ∧ ∀ op ∈ s.ops, op.isFieldRead :=
      hget ▸ hslots.get hlt hlt'
    have hstart : y.start (position + 1) = y.start position + s.ops.length + 1 := by
      rw [start_succ hs, Slot.ops, List.length_map]
    have hget' := hy.getElem?_instr hs
    have hop' : (s.instr.retarget y.destination).op = i.op := by
      rw [hinstr]
      exact Operation.retarget_of_target?_none hstraight.target?_eq _
    have hline : b'.At (y.start position) (s.ops ++ i.op :: ops') :=
      (hy.at_start hs).append (hop' ▸ .cons hget' (hstart ▸ hat'))
    refine ⟨_, hline, ?_, ?_⟩
    · rw [List.length_cons, ← Nat.add_assoc, Nat.add_right_comm, hlength, hstart]
      simp only [List.length_append, List.length_cons]
      omega
    · have hnone : s.ops.filter (fun op => !op.isFieldRead) = [] := by
        rw [List.filter_eq_nil_iff]
        intro op hop
        simp [hreads op hop]
      rw [List.filter_append, hnone, List.filter_cons_of_pos (by simp [hop]), hfilter]
      rfl

theorem Body.At.mem {b : Body} {position n : Nat} {ops : List Operation} (h : b.At position ops)
    (hle : position ≤ n) (hlt : n < position + ops.length) {i : Instr}
    (hi : b.instrs[n]? = some i) : i.op ∈ ops := by
  obtain ⟨tail, htail⟩ := h
  obtain ⟨k, rfl⟩ := Nat.exists_eq_add_of_le hle
  have hop : (ops ++ tail)[k]? = some i.op := by
    rw [htail, List.getElem?_map, List.getElem?_drop, hi]
    rfl
  rw [List.getElem?_append_left (by omega)] at hop
  exact List.mem_of_getElem? hop

/-- A straight line and the instruction after it, where only field probes are woven in. -/
theorem Layout.Lays.exists_line_instr {y : Layout} {b b' : Body} (hy : y.Lays b')
    (hslots : List.Forall₂ (fun i s => s.instr = i ∧ ∀ op ∈ s.ops, op.isFieldRead) b.instrs y.slots)
    {position : Nat} {ops : List Operation} (hat : b.At position ops)
    (hops : ∀ op ∈ ops, op.IsStraight ∧ op.isFieldRead = false) {i : Instr}
    (hi : b.instrs[position + ops.length]? = some i) :
    ∃ ops', b'.At (y.start position) ops' ∧
      y.start (position + ops.length + 1) = y.start position + ops'.length + 1 ∧
      b'.instrs[y.start position + ops'.length]? = some (i.retarget y.destination) ∧
      ops'.filter (fun op => !op.isFieldRead) = ops := by
  obtain ⟨ops', hat', hlength, hfilter⟩ := hy.exists_line hslots hat hops
  obtain ⟨hlt, hget⟩ := List.getElem?_eq_some_iff.1 hi
  have hlt' : position + ops.length < y.slots.length := hslots.length_eq ▸ hlt
  have hs : y.slots[position + ops.length]? = some y.slots[position + ops.length] :=
    List.getElem?_eq_getElem hlt'
  set s := y.slots[position + ops.length]
  obtain ⟨hinstr, hreads⟩ : s.instr = i ∧ ∀ op ∈ s.ops, op.isFieldRead :=
    hget ▸ hslots.get hlt hlt'
  have hlast := hy.at_start hs
  have hend := hy.getElem?_instr hs
  have hnone : s.ops.filter (fun op => !op.isFieldRead) = [] := by
    rw [List.filter_eq_nil_iff]
    intro op hop
    simp [hreads op hop]
  rw [hlength] at hlast hend
  refine ⟨ops' ++ s.ops, hat'.append hlast, ?_, ?_, ?_⟩
  · rw [start_succ hs, hlength, List.length_append, Slot.ops, List.length_map]
    omega
  · rw [List.length_append, ← Nat.add_assoc, hend, hinstr]
  · rw [List.filter_append, hfilter, hnone, List.append_nil]

theorem isStraight_of_filter {ops ops' : List Operation}
    (hfilter : ops'.filter (fun op => !op.isFieldRead) = ops) (hops : ∀ op ∈ ops, op.IsStraight) :
    ∀ op ∈ ops', op.IsStraight := by
  intro op hop
  cases hread : op.isFieldRead with
  | true =>
    obtain ⟨file, line, field, rfl⟩ := Operation.exists_fieldRead hread
    trivial
  | false =>
    refine hops op ?_
    rw [← hfilter]
    exact List.mem_filter.2 ⟨hop, by simp [hread]⟩

/-! ## Blocks of the product phase -/

namespace ProductPhase

variable {plan : Plan} {target : MethodTarget} {w w' : Workpiece} {added : List (UInt32 × Label)}
  {b : Body} {y y' : Layout} (h : ProductPhase plan target w w' added b y y')
  (hconsistent : w.body.defect? = none)

include h

theorem fieldReads : List.Forall₂ (fun i s => s.instr = i ∧ ∀ op ∈ s.ops, op.isFieldRead)
    b.instrs y'.slots :=
  h.slots'.imp fun i s hs => ⟨hs.1, fun op hop => by
    obtain ⟨line, field, rfl⟩ := hs.2 op hop
    rfl⟩

include hconsistent

/-- Jumps lead to the starts of slots that were there before the phase. -/
theorem exists_start_of_jumpPosition? {t : Label} (ht : t ∈ w'.body.targets) {position : Nat}
    (hposition : w'.body.jumpPosition? t = some position) :
    ∃ k, position = y'.start (y.start k) := by
  rw [Layout.targets_eq_map h.lays' h.carried'] at ht
  obtain ⟨t₁, ht₁, rfl⟩ := List.mem_map.1 ht
  obtain ⟨k₁, -, hk₁, hjump'⟩ :=
    h.lays'.jumpPosition?_of_mem_targets h.carried' h.consistent h.nodup' ht₁
  rw [Layout.targets_eq_map h.lays h.carried] at ht₁
  obtain ⟨t₀, ht₀, rfl⟩ := List.mem_map.1 ht₁
  obtain ⟨k, -, -, hjump⟩ := h.lays.jumpPosition?_of_mem_targets h.carried hconsistent h.nodup ht₀
  rw [hjump, Option.some.injEq] at hk₁
  rw [hjump', Option.some.injEq, ← hk₁] at hposition
  exact ⟨k, hposition.symm⟩

/-- What the product weaver puts before an instruction becomes a block that ends at the
instruction. -/
theorem exists_block {k : Nat} {s : Slot} (hs : y.slots[k]? = some s)
    (hops : ∀ op ∈ s.ops, op.IsStraight ∧ op.isFieldRead = false) :
    ∃ first ops, w'.body.At first ops ∧ (∀ op ∈ ops, op.IsStraight) ∧
      ops.filter (fun op => !op.isFieldRead) = s.ops ∧
      w'.body.Block first (first + ops.length) ∧
      w'.body.instrs[first + ops.length]? =
        some ((s.instr.retarget y.destination).retarget y'.destination) := by
  obtain ⟨ops, hat, hnext, hend, hfilter⟩ := h.lays'.exists_line_instr h.fieldReads
    (h.lays.at_start hs) hops (h.lays.getElem?_instr hs)
  have hstraight := isStraight_of_filter hfilter fun op hop => (hops op hop).1
  have hstart : y.start (k + 1) = y.start k + s.ops.length + 1 := by
    rw [Layout.start_succ hs, Slot.ops, List.length_map]
  refine ⟨y'.start (y.start k), ops, hat, hstraight, hfilter,
    ⟨Nat.le_add_right _ _, fun n i hle hlt hi => ?_, fun t ht n hn => ?_⟩, hend⟩
  · exact hstraight i.op (hat.mem hle hlt hi)
  · obtain ⟨k₀, rfl⟩ := h.exists_start_of_jumpPosition? hconsistent ht hn
    -- A slot that begins later begins after the instruction.
    rcases Nat.lt_or_ge k k₀ with hlt | hle
    · have hle : y'.start (y.start (k + 1)) ≤ y'.start (y.start k₀) :=
        y'.start_mono (y.start_mono hlt)
      rw [hstart, hnext] at hle
      exact .inr (by omega)
    · exact .inl (y'.start_mono (y.start_mono hle))

end ProductPhase

end TraceWeave
