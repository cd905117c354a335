import TraceWeave.Proofs.Weave.Malformed

/-!
# The product phase

The product phase runs two weavers on a method, and `ProductPhase` says what each of them leaves:
first a layout over the instructions that the method had, with line probes and decompositions, then
a layout over those, with field probes.  `Plan.exists_productPhase` says that this is what a method
has gone through when the phase goes through.
-/

namespace TraceWeave

/-- A method in the product phase: the product weaver adds some line probes and leaves the body `b`
with the layout `y`, and the field weaver leaves the last body with the layout `y'`. -/
structure ProductPhase (plan : Plan) (target : MethodTarget) (w w' : Workpiece)
    (added : List (UInt32 × Label)) (b : Body) (y y' : Layout) : Prop where
  consistent : b.defect? = none
  consistent' : w'.body.defect? = none
  locals_eq : w'.body.locals = b.locals
  reserves : Product.Reserves target.file (Product.anchors w.body
    (Product.linesIn plan.settings plan.lines target w.body)) added w.ledger w'.ledger
  lays : y.Lays b
  instrs_eq : b.instrs = y.slots.flatMap (Slot.emit y.destination)
  slots : List.Forall₂ (fun i s => ∃ ops,
    s.ops = Product.lineProbes target.file added i.label ++ ops ∧
      Product.Branches target (Product.selectedBranches
        (Product.linesIn plan.settings plan.lines target w.body) w.body) w.body.locals b.locals i
          ops s.instr) w.body.instrs y.slots
  lays' : y'.Lays w'.body
  instrs_eq' : w'.body.instrs = y'.slots.flatMap (Slot.emit y'.destination)
  slots' : List.Forall₂ (fun i s => s.instr = i ∧
    ∀ op ∈ s.ops, ∃ line field, op = .probe (.fieldRead target.file line field)) b.instrs y'.slots
  woven' : ∃ outcome, FieldAccess.weave plan.settings plan.fields target b = .ok outcome w'.body

theorem Layout.Lays.instrs_eq_flatMap {y : Layout} {b : Body} (hy : y.Lays b)
    (hopening : y.opening = []) (hclosing : y.closing = []) :
    b.instrs = y.slots.flatMap (Slot.emit y.destination) := by
  rw [hy.instrs_eq, instrs, hopening, hclosing]
  simp

theorem Plan.exists_productPhase {plan : Plan} {target : MethodTarget} {w w' : Workpiece}
    {outcomes : List Outcome} (h : plan.applyAll target productWeavers w = .ok (outcomes, w')) :
    ∃ added b y y', ProductPhase plan target w w' added b y y' := by
  obtain ⟨_, w₁, _, hproduct, hdefect, hrest, -⟩ := applyAll_cons_eq_ok.1 h
  obtain ⟨_, w₂, _, hfield, hdefect', hrest, -⟩ := applyAll_cons_eq_ok.1 hrest
  cases hrest
  obtain ⟨hfield, hledger⟩ := onBody_eq_ok hfield
  obtain ⟨-, added, hadded, y, hy, hopening, hclosing, hslots⟩ :=
    Product.weave_layout hproduct (Body.labels_nodup_of_defect? hdefect)
  obtain ⟨hlocals, y', hy', hopening', hclosing', hslots'⟩ :=
    FieldAccess.weave_layout hfield (Body.labels_nodup_of_defect? hdefect')
  exact ⟨added, w₁.body, y, y',
    { consistent := hdefect
      consistent' := hdefect'
      locals_eq := hlocals
      reserves := hledger ▸ hadded
      lays := hy
      instrs_eq := hy.instrs_eq_flatMap hopening hclosing
      slots := hslots
      lays' := hy'
      instrs_eq' := hy'.instrs_eq_flatMap hopening' hclosing'
      slots' := hslots'
      woven' := ⟨_, hfield⟩ }⟩

namespace ProductPhase

variable {plan : Plan} {target : MethodTarget} {w w' : Workpiece} {added : List (UInt32 × Label)}
  {b : Body} {y y' : Layout} (h : ProductPhase plan target w w' added b y y')

include h

theorem carried : List.Forall₂ Instr.Carried w.body.instrs y.slots :=
  h.slots.imp fun i s hs => by
    obtain ⟨ops, -, hbranches⟩ := hs
    exact hbranches.carried

theorem carried' : List.Forall₂ Instr.Carried b.instrs y'.slots :=
  h.slots'.imp fun _ _ hs => .of_eq hs.1

theorem origins_eq : y.origins = w.body.labels := Layout.origins_eq_labels h.carried

theorem origins_eq' : y'.origins = b.labels := Layout.origins_eq_labels h.carried'

theorem nodup : b.labels.Nodup := Body.labels_nodup_of_defect? h.consistent

theorem nodup' : w'.body.labels.Nodup := Body.labels_nodup_of_defect? h.consistent'

theorem layout_nodup : y.labels.Nodup := h.lays.labels_nodup h.nodup

theorem layout_nodup' : y'.labels.Nodup := h.lays'.labels_nodup h.nodup'

/-- The labels were distinct before the phase, because they are afterwards. -/
theorem origins_nodup : w.body.labels.Nodup :=
  h.origins_eq ▸ Layout.origins_nodup h.layout_nodup

/-- The labels that a method had are still there when the field weaver runs. -/
theorem labels_subset : w.body.labels ⊆ b.labels := by
  rw [h.lays.labels_eq, ← h.origins_eq]
  exact fun _ hl => y.labels_perm.mem_iff.2 (List.mem_append_left _ hl)

/-- What the field weaver inserts has labels of its own. -/
theorem ne_of_mem_woven' {s : Slot} (hs : s ∈ y'.slots) {e : Label × Operation} (he : e ∈ s.woven)
    {l : Label} (hl : l ∈ b.labels) : e.1 ≠ l :=
  Layout.woven_ne_origin h.layout_nodup' (Layout.mem_woven_of_mem_slot hs he) (h.origins_eq' ▸ hl)

end ProductPhase

end TraceWeave
