import TraceWeave.Proofs.Body.FreshLabels
import TraceWeave.Proofs.Flow.Contraction
import TraceWeave.Proofs.Weave.EditClosed
import TraceWeave.Proofs.Weave.Woven

/-!
# Weaving and control flow

What a weaver inserts never decides where control goes: it is passed over to the next instruction
that was there before, and every way to such an instruction leads to what was inserted for it.  So
the graph of a woven body, with the inserted labels passed over, is the graph that the body had
(`Layout.Weaves.contractsTo`).  The body is still consistent, because every inserted instruction
gets a fresh label as long as there are labels left, and the instructions that were there before
stand in it in the same order (`Plan.keeps_controlFlow`).
-/

namespace TraceWeave

/-! ## Consistency -/

theorem Body.Enlarges.push {b : Body} {line : Int32} {op : Operation} :
    b.Enlarges (b.push line op) := by
  refine .of_perm ?_
  simp [labels, Body.push, List.perm_append_singleton]

/-- Every edit gives new instructions fresh labels. -/
theorem Body.enlarges_editClosed : EditClosed Body.Enlarges where
  refl _ := .of_labels_eq rfl
  trans := .trans
  insertProbe h := .of_perm (insertBefore?_labels h).2
  insertEntry := .of_perm (List.Perm.refl _)
  pushProbe := .push
  pushReturn := .push
  setCondition := .of_labels_eq (Body.setCondition_labels _ _ _)
  hold h := .of_perm (insertBefore?_labels h).2

/-- A consistent body stays consistent, if there are enough labels for the woven one. -/
theorem Plan.defect?_apply_eq_none {plan : Plan} {weaver : Weaver} {target : MethodTarget}
    {w w' : Workpiece} {o : Outcome} (h : plan.apply weaver target w = .ok o w')
    (hb : w.body.defect? = none) (hroom : w'.body.size ≤ UInt32.size) :
    w'.body.defect? = none := by
  obtain ⟨hlabels, htargets⟩ := Body.defect?_eq_none_iff.1 hb
  have hnodup := (Body.enlarges_editClosed.apply h).nodup hroom hlabels
  obtain ⟨y, hy, hslots⟩ := Plan.apply_layout h hnodup
  rw [Body.defect?_eq_none_iff_of_layout hy hslots]
  refine ⟨hnodup, fun t ht => ?_⟩
  obtain ⟨htarget, hmissing⟩ := Body.mem_danglingTargets.1 ht
  exact absurd (htargets t htarget) hmissing

/-! ## The instructions that were there before -/

/-- The weaver decomposes the condition of the instruction: it is a branch on a line that the
product weaver has to do with. -/
def Plan.Instruments (plan : Plan) (weaver : Weaver) (target : MethodTarget) (b : Body)
    (i : Instr) : Prop :=
  weaver = .product ∧ i.op.isBranch = true ∧
    ∃ line ∈ Product.linesIn plan.settings plan.lines target b, i.sourceLine? = some line

/-- The second instruction is the first one, up to where it jumps and, if it is a branch that the
weaver decomposes, up to its condition. -/
def Plan.KeepsInstr (plan : Plan) (weaver : Weaver) (target : MethodTarget) (b : Body)
    (i i' : Instr) : Prop :=
  i'.label = i.label ∧ i'.line = i.line ∧
    ((∃ f, i'.op = i.op.retarget f) ∨
      plan.Instruments weaver target b i ∧ ∃ condition target condition' target',
        i.op = .branch condition target ∧ i'.op = .branch condition' target')

namespace Layout

variable {y : Layout} {b b' : Body}

/-- What is left of a woven body without what was woven in. -/
theorem Lays.filter_origins (hy : y.Lays b') (hnodup : b'.labels.Nodup) :
    b'.instrs.filter (fun i => i.label ∈ y.origins) =
      y.slots.map fun s => s.instr.retarget y.destination := by
  have hlabels := hy.labels_nodup hnodup
  have hnone : ∀ l : List (Label × Operation), (∀ e ∈ l, e ∈ y.woven) →
      (l.map wovenInstr).filter (fun i => i.label ∈ y.origins) = [] := by
    intro l hl
    rw [List.filter_eq_nil_iff]
    intro i hi hmem
    obtain ⟨e, he, rfl⟩ := List.mem_map.1 hi
    exact woven_ne_origin hlabels (hl e he) (of_decide_eq_true hmem) rfl
  have hslots : ∀ slots : List Slot, (∀ s ∈ slots, s ∈ y.slots) →
      (slots.flatMap (Slot.emit y.destination)).filter (fun i => i.label ∈ y.origins) =
        slots.map fun s => s.instr.retarget y.destination := by
    intro slots hmem
    induction slots with
    | nil => rfl
    | cons s rest ih =>
      have hs := hmem s (by simp)
      rw [List.flatMap_cons, List.filter_append, ih fun r hr => hmem r (by simp [hr]), Slot.emit,
        List.filter_append, hnone s.woven fun e he => mem_woven_of_mem_slot hs he]
      simp [mem_origins_of_mem hs]
  rw [hy.instrs_eq, instrs, List.filter_append, List.filter_append,
    hnone _ (by simp +contextual [woven]), hnone _ (by simp +contextual [woven]),
    hslots _ fun _ hs => hs, List.nil_append, List.append_nil]

end Layout

/-- Every weaver keeps the instructions, next to the layout of what it leaves. -/
theorem Plan.exists_keeps_of_apply {plan : Plan} {weaver : Weaver} {target : MethodTarget}
    {w w' : Workpiece} {o : Outcome} (h : plan.apply weaver target w = .ok o w')
    (hlabels : w.body.labels.Nodup) (hnodup : w'.body.labels.Nodup) :
    ∃ y : Layout, y.Lays w'.body ∧ List.Forall₂ (fun i s => ∀ f,
      plan.KeepsInstr weaver target w.body i (s.instr.retarget f)) w.body.instrs y.slots := by
  have hsame {i : Instr} {s : Slot} (hs : s.instr = i) (f : Label → Label) :
      plan.KeepsInstr weaver target w.body i (s.instr.retarget f) := by
    rw [hs]
    exact ⟨rfl, rfl, .inl ⟨f, rfl⟩⟩
  cases weaver with
  | product =>
    obtain ⟨-, added, -, y, hy, -, -, hslots⟩ := Product.weave_layout h hnodup
    refine ⟨y, hy, ((List.forall₂_and_left _ _).2 ⟨fun i hi => hi, hslots⟩).imp ?_⟩
    rintro i s ⟨hi, ops, -, hbranches⟩ f
    rcases hbranches with ⟨-, -, hs⟩ | ⟨line, index, hmem, hdecomposed⟩
    · exact hsame hs f
    · obtain ⟨hbranch, hline, hlines⟩ := Product.of_mem_selectedBranches hlabels hi hmem
      obtain ⟨condition, t, before, script, hop, -, -, -, -, hs⟩ := hdecomposed
      rw [hs]
      exact ⟨rfl, rfl, .inr ⟨⟨rfl, hbranch, line, hlines, hline⟩, condition, t, script.rest, f t,
        hop, rfl⟩⟩
  | fieldAccess =>
    obtain ⟨-, y, hy, -, -, hslots⟩ := FieldAccess.weave_layout (onBody_eq_ok h).1 hnodup
    exact ⟨y, hy, hslots.imp fun i s hs => hsame hs.1⟩
  | lifecycle =>
    obtain ⟨-, y, hy, -, -, hslots⟩ := Lifecycle.weave_layout (onBody_eq_ok h).1 hnodup
    exact ⟨y, hy, hslots.imp fun i s hs => hsame hs.1⟩

/-! ## The graph of a woven body -/

theorem Instr.Woven.isTerminator_eq {declared available : List Local} {i : Instr} {s : Slot}
    (h : i.Woven declared available s) : s.instr.op.isTerminator = i.op.isTerminator := by
  rcases h with ⟨hinstr, -⟩ | ⟨site, marks, ops, -, -, hdecomposed⟩
  · rw [hinstr]
  · obtain ⟨condition, target, before, r, hop, -, -, -, -, hinstr⟩ := hdecomposed
    rw [hinstr, hop]
    rfl

namespace Layout.Weaves

variable {y : Layout} {b b' : Body} (h : y.Weaves b b') (hnodup : b'.labels.Nodup)

include h hnodup

omit hnodup in
theorem origins_eq : y.origins = b.labels :=
  Layout.origins_eq_labels (h.slots.imp fun _ _ hs => hs.carried)

/-- No inserted instruction was there before. -/
theorem label_not_mem {e : Label × Operation} (he : e ∈ y.woven) : e.1 ∉ b.labels := by
  have hlabels := h.lays.labels_nodup hnodup
  intro hmem
  rw [← h.origins_eq] at hmem
  exact woven_ne_origin hlabels he hmem rfl

theorem find?_wovenInstr_eq_none {l : List (Label × Operation)} (hl : ∀ e ∈ l, e ∈ y.woven) :
    (l.map wovenInstr).find? (fun i => i.label ∈ b.labels) = none := by
  rw [List.find?_eq_none]
  intro i hi hmem
  obtain ⟨e, he, rfl⟩ := List.mem_map.1 hi
  exact h.label_not_mem hnodup (hl e he) (of_decide_eq_true hmem)

/-- From the start of a slot on, the first instruction that was there before is that of the slot. -/
theorem nextOld?_start (k : Nat) :
    b'.nextOld? b.labels (y.start k) = b.instrs[k]?.map (·.label) := by
  cases hi : b.instrs[k]? with
  | none =>
    have hk : y.slots.length ≤ k := h.slots.length_eq ▸ List.getElem?_eq_none_iff.1 hi
    rw [Body.nextOld?, h.lays.instrs_eq, drop_start, List.drop_eq_nil_of_le hk, List.flatMap_nil,
      List.nil_append, h.find?_wovenInstr_eq_none hnodup (by simp +contextual [woven]),
      Option.map_none]
  | some i =>
    obtain ⟨s, hs, hwoven⟩ := exists_getElem?_of_forall₂ h.slots hi
    obtain ⟨rest, hdrop⟩ := h.lays.drop_start_eq hs
    have hmem : s.instr.label ∈ b.labels :=
      h.origins_eq ▸ mem_origins_of_mem (List.mem_of_getElem? hs)
    rw [Body.nextOld?, hdrop, List.find?_append, h.find?_wovenInstr_eq_none hnodup
      fun e he => mem_woven_of_mem_slot (List.mem_of_getElem? hs) he, Option.none_or,
      List.find?_cons, Instr.retarget_label, decide_eq_true hmem]
    simp [hwoven.carried.label]

/-- What was woven in at the entry is passed over. -/
theorem nextOld?_zero : b'.nextOld? b.labels 0 = b.instrs[0]?.map (·.label) := by
  rw [← h.nextOld?_start hnodup 0, start_zero, Body.nextOld?, Body.nextOld?, List.drop_zero]
  have hsplit : b'.instrs = y.opening.map wovenInstr ++ b'.instrs.drop y.opening.length := by
    rw [h.lays.instrs_eq, instrs, List.append_assoc, List.drop_left' (by simp)]
  rw [hsplit, List.find?_append,
    h.find?_wovenInstr_eq_none hnodup (by simp +contextual [woven]), Option.none_or,
    List.drop_left' (by simp)]

/-- What was woven in is passed over. -/
theorem passesOver : b'.PassesOver b.labels := by
  intro k i hi hnew
  set before := y.opening.map wovenInstr ++ y.slots.flatMap (Slot.emit y.destination) with hbefore
  have hsplit : b'.instrs = before ++ y.closing.map wovenInstr := h.lays.instrs_eq
  rcases Nat.lt_or_ge k before.length with hlt | hge
  · -- At the entry and before instructions there are straight operations.
    have hstraight : i.op.IsStraight := by
      rw [hsplit, List.getElem?_append_left hlt] at hi
      rcases List.mem_append.1 (List.mem_of_getElem? hi) with hmem | hmem
      · obtain ⟨e, he, rfl⟩ := List.mem_map.1 hmem
        exact Operation.isStraight_of_isMark (h.opening e he)
      · obtain ⟨j, -, s, hs, hwoven, ⟨e, he, rfl⟩ | rfl⟩ := exists_of_mem_flatMap_emit h.slots hmem
        · exact hwoven.isStraight e.2 (List.mem_map_of_mem he)
        · exact absurd (h.origins_eq ▸ mem_origins_of_mem hs) hnew
    refine ⟨Operation.IsStraight.target?_eq hstraight, fun hend => ?_⟩
    rw [Operation.IsStraight.isTerminator_eq hstraight] at hend
    cases hend
  · -- After the instructions that were there before, everything was woven in.
    rw [hsplit, List.getElem?_append_right hge] at hi
    obtain ⟨e, he, rfl⟩ := List.mem_map.1 (List.mem_of_getElem? hi)
    refine ⟨h.lays.straight e (by simp [woven, he]), fun _ => ?_⟩
    have hdrop : b'.instrs.drop (k + 1) =
        (y.closing.drop (k + 1 - before.length)).map wovenInstr := by
      rw [hsplit, List.drop_append, List.drop_eq_nil_of_le (by omega), List.nil_append,
        List.map_drop]
    rw [Body.nextOld?, hdrop, h.find?_wovenInstr_eq_none hnodup fun e he => ?_, Option.map_none]
    simp [woven, (List.drop_sublist _ _).subset he]

/-- A jump leads to the instruction that it led to before. -/
theorem leadsTo_destination_iff {t : Label} (ht : t ∈ b.labels) {l' : Label} :
    (FlowGraph.ofBody b').LeadsTo b.labels (y.destination t) l' ↔ t = l' := by
  obtain ⟨i, hi, rfl⟩ := List.mem_map.1 ht
  obtain ⟨k, hk⟩ := List.getElem?_of_mem hi
  obtain ⟨s, hs, hwoven⟩ := exists_getElem?_of_forall₂ h.slots hk
  obtain ⟨e, he, hlabel⟩ := h.lays.exists_entry hs hnodup
  rw [← hwoven.carried.label, ← hlabel,
    Body.leadsTo_iff_nextOld? hnodup (h.passesOver hnodup) he, h.nextOld?_start hnodup, hk,
    hwoven.carried.label]
  simp

/-- Where control goes on after the instruction of a slot, it comes to the next slot. -/
theorem nextOld?_succ {k : Nat} {s : Slot} (hs : y.slots[k]? = some s) :
    b'.nextOld? b.labels (y.start k + s.ops.length + 1) = b.instrs[k + 1]?.map (·.label) := by
  rw [← h.nextOld?_start hnodup, start_succ hs, Slot.ops, List.length_map]

/-- The edges out of an instruction that was there before, from where it stands now. -/
theorem mem_successors_iff {k : Nat} {i : Instr} {s : Slot} (hs : y.slots[k]? = some s)
    (hi : b.instrs[k]? = some i) {m : Label} :
    m ∈ (FlowGraph.ofBody b').successors i.label ↔
      i.op.target?.map y.destination = some m ∨ i.op.isTerminator = false ∧
        ∃ j, b'.instrs[y.start k + s.ops.length + 1]? = some j ∧ j.label = m := by
  obtain ⟨r, hr, hwoven⟩ := exists_getElem?_of_forall₂ h.slots hi
  obtain rfl : s = r := Option.some.inj (hs.symm.trans hr)
  rw [FlowGraph.mem_successors, ← hwoven.carried.label, ← Instr.retarget_label y.destination,
    Body.edge_iff_goesTo hnodup (h.lays.getElem?_instr hs), FlowGraph.GoesTo, Instr.retarget,
    Operation.retarget_target?, Operation.isTerminator_retarget, hwoven.carried.target?,
    hwoven.isTerminator_eq]

/-- With the inserted labels passed over, the graph of a woven body is that of the body before. -/
theorem contractsTo (hb : b.defect? = none) :
    (FlowGraph.ofBody b').ContractsTo (FlowGraph.ofBody b) b.labels := by
  obtain ⟨hlabels, htargets⟩ := Body.defect?_eq_none_iff.1 hb
  have hleads := Body.exists_leadsTo_iff hnodup (h.passesOver hnodup)
  constructor
  · intro l
    have hfirst : b'.nextOld? b.labels 0 = some l ↔ l ∈ (FlowGraph.ofBody b).entries := by
      rw [h.nextOld?_zero hnodup, Option.map_eq_some_iff, FlowGraph.mem_entries_ofBody]
    rw [← hfirst, ← hleads]
    constructor
    · rintro ⟨e, he, hpath⟩
      obtain ⟨i, hi, rfl⟩ := FlowGraph.mem_entries_ofBody.1 he
      exact ⟨i, hi, hpath⟩
    · rintro ⟨i, hi, hpath⟩
      exact ⟨i.label, FlowGraph.mem_entries_ofBody.2 ⟨i, hi, rfl⟩, hpath⟩
  · intro l hl l'
    obtain ⟨i, hi, rfl⟩ := List.mem_map.1 hl
    obtain ⟨k, hk⟩ := List.getElem?_of_mem hi
    obtain ⟨s, hs, -⟩ := exists_getElem?_of_forall₂ h.slots hk
    have hedge {m : Label} := h.mem_successors_iff hnodup hs hk (m := m)
    rw [FlowGraph.mem_successors, Body.edge_iff_goesTo hlabels hk, FlowGraph.GoesTo,
      ← Option.map_eq_some_iff, ← h.nextOld?_succ hnodup hs, ← hleads]
    constructor
    · rintro ⟨m, hm, hpath⟩
      rcases hedge.1 hm with hjump | ⟨hgoes, j, hj, rfl⟩
      · obtain ⟨t, ht, rfl⟩ := Option.map_eq_some_iff.1 hjump
        have htlabel := htargets t (Body.mem_targets.2 ⟨i, hi, ht⟩)
        exact .inl (((h.leadsTo_destination_iff hnodup htlabel).1 hpath) ▸ ht)
      · exact .inr ⟨hgoes, j, hj, hpath⟩
    · rintro (ht | ⟨hgoes, j, hj, hpath⟩)
      · have htlabel := htargets l' (Body.mem_targets.2 ⟨i, hi, ht⟩)
        exact ⟨y.destination l', hedge.2 (.inl (by rw [ht, Option.map_some])),
          (h.leadsTo_destination_iff hnodup htlabel).2 rfl⟩
      · exact ⟨j.label, hedge.2 (.inr ⟨hgoes, j, hj, rfl⟩), hpath⟩

end Layout.Weaves

/-! ## Every weaver -/

namespace Plan

/-- A weaver does not alter control flow.  If it goes through on a consistent body and there are
enough labels for what it leaves, then that is consistent; the instructions that were there before
stand in it in their order, with their labels and lines, and are what they were up to where they
jump and up to the conditions that are decomposed; and with the inserted labels passed over, its
graph has the entry and the edges that the graph had before, so the same instructions are
reachable. -/
theorem keeps_controlFlow {plan : Plan} {weaver : Weaver} {target : MethodTarget}
    {w w' : Workpiece} {o : Outcome} (h : plan.apply weaver target w = .ok o w')
    (hb : w.body.defect? = none) (hroom : w'.body.size ≤ UInt32.size) :
    w'.body.defect? = none ∧
      List.Forall₂ (plan.KeepsInstr weaver target w.body) w.body.instrs
        (w'.body.instrs.filter fun i => i.label ∈ w.body.labels) ∧
      (FlowGraph.ofBody w'.body).ContractsTo (FlowGraph.ofBody w.body) w.body.labels ∧
      ∀ l ∈ w.body.labels,
        l ∈ (FlowGraph.ofBody w'.body).reachable ↔ l ∈ (FlowGraph.ofBody w.body).reachable := by
  have hdefect := defect?_apply_eq_none h hb hroom
  have hnodup := Body.labels_nodup_of_defect? hdefect
  have hlabels := Body.labels_nodup_of_defect? hb
  obtain ⟨y, hweaves⟩ := exists_weaves_of_apply h hnodup
  have hcontracts := hweaves.contractsTo hnodup hb
  refine ⟨hdefect, ?_, hcontracts, fun l hl => hcontracts.mem_reachable_iff hl⟩
  obtain ⟨y', hy', hkeeps⟩ := exists_keeps_of_apply h hlabels hnodup
  have horigins : y'.origins = w.body.labels := by
    rw [← Layout.origins_ofInstrs]
    refine Layout.origins_eq_of_slots ?_
    rw [Layout.ofInstrs, List.forall₂_map_left_iff]
    exact hkeeps.imp fun i s hs => (hs id).1
  rw [← horigins, hy'.filter_origins hnodup, List.forall₂_map_right_iff]
  exact hkeeps.imp fun i s hs => hs _

/-- A loop on line 5 at the greatest label, with a return after it. -/
def looping : Method :=
  { name := "loop", returnType := .void
    body := { instrs := [⟨⟨4294967295⟩, 5, .branch (.value (.bool true)) ⟨4294967295⟩⟩,
      ⟨⟨0⟩, 6, .ret none⟩] } }

/-- The new instructions get the least labels that are free, and the loop is still a loop. -/
theorem keeps_controlFlow_looping :
    ∃ o w', requestingFive.apply .product (.of (lone looping) looping)
        ⟨looping.body, ⟨[], []⟩⟩ = .ok o w' ∧
      w'.body.labels = [⟨1⟩, ⟨2⟩, ⟨3⟩, ⟨4⟩, ⟨4294967295⟩, ⟨0⟩] ∧ w'.body.defect? = none ∧
      (FlowGraph.ofBody w'.body).ContractsTo (FlowGraph.ofBody looping.body)
        looping.body.labels := by
  have happly : requestingFive.apply .product (.of (lone looping) looping)
      ⟨looping.body, ⟨[], []⟩⟩ = .ok _ _ := rfl
  obtain ⟨hdefect, -, hcontracts, -⟩ := keeps_controlFlow happly (by decide) (by decide)
  exact ⟨_, _, happly, rfl, hdefect, hcontracts⟩

end Plan

end TraceWeave
