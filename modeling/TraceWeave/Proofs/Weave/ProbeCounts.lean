import TraceWeave.Proofs.Weave.EditClosed

/-!
# Probe counts

A weaver reports how many more probes a body has after it than before it.  No edit takes a probe
out, so nothing is lost in the subtraction (`Plan.probeCount_apply`).  Weavers also put values into
temporaries, give branches new conditions and append returns, but each step that does so inserts a
probe as well.  So a body that has as many probes as before is the body that it was
(`Body.gainsProbes_stepClosed`).
-/

namespace TraceWeave

/-! ## One edit -/

namespace Body

theorem probeCount_eq_count (b : Body) :
    b.probeCount = (b.instrs.map fun i => i.op.isProbe).count true := by
  rw [probeCount, List.count, List.countP_map]
  exact List.countP_congr fun i _ => by simp

theorem probeCount_insertBefore? {b b' : Body} {anchor : Label} {op : Operation}
    (h : b.insertBefore? anchor op = some b') :
    b'.probeCount = b.probeCount + op.isProbe.toNat := by
  have hredirect : ∀ i : Instr, (i.redirect anchor b.nextLabel).op.isProbe = i.op.isProbe := by
    rintro ⟨label, line, op⟩
    cases op <;> rfl
  rw [probeCount_eq_count, probeCount_eq_count, (insertBefore?_map hredirect h).2.count_eq,
    List.count_cons]
  cases op.isProbe <;> rfl

theorem probeCount_push (b : Body) (line : Int32) (op : Operation) :
    (b.push line op).probeCount = b.probeCount + op.isProbe.toNat := by
  rw [probeCount, push, List.countP_append, ← probeCount, List.countP_singleton]
  cases op.isProbe <;> rfl

theorem probeCount_insertEntry (b : Body) (op : Operation) :
    (b.insertEntry op).probeCount = b.probeCount + op.isProbe.toNat := by
  rw [probeCount, insertEntry, List.countP_cons, ← probeCount]
  cases op.isProbe <;> rfl

theorem probeCount_setCondition (b : Body) (label : Label) (condition : Expr) :
    (b.setCondition label condition).probeCount = b.probeCount := by
  have hset : ∀ i : Instr, (i.setCondition condition).op.isProbe = i.op.isProbe := by
    rintro ⟨label, line, op⟩
    cases op <;> rfl
  rw [probeCount_eq_count, probeCount_eq_count, b.setCondition_map hset]

/-- No edit takes a probe out. -/
theorem probeCount_editClosed : EditClosed fun b b' => b.probeCount ≤ b'.probeCount where
  refl _ := Nat.le_refl _
  trans := Nat.le_trans
  insertProbe h := probeCount_insertBefore? h ▸ Nat.le_add_right _ _
  insertEntry {b p} := b.probeCount_insertEntry (.probe p) ▸ Nat.le_add_right _ _
  pushProbe {b p} := b.probeCount_push 0 (.probe p) ▸ Nat.le_add_right _ _
  pushReturn {b} := b.probeCount_push 0 (.ret none) ▸ Nat.le_add_right _ _
  setCondition {b label condition} := (b.probeCount_setCondition label condition).ge
  hold {b _ _ value} h := by
    have hadd : (b.addTemporary value.ty).probeCount = b.probeCount := rfl
    have hinsert := probeCount_insertBefore? h
    omega

/-! ## Steps and weavers -/

/-- The second body is the first, or it has more probes. -/
def GainsProbes (b b' : Body) : Prop := b' = b ∨ b.probeCount < b'.probeCount

theorem GainsProbes.le {b b' : Body} (h : GainsProbes b b') : b.probeCount ≤ b'.probeCount := by
  rcases h with rfl | h
  · exact Nat.le_refl _
  · exact Nat.le_of_lt h

theorem GainsProbes.eq_iff {b b' : Body} (h : GainsProbes b b') :
    b' = b ↔ b'.probeCount = b.probeCount := by
  refine ⟨fun heq => heq ▸ rfl, fun hcount => ?_⟩
  rcases h with heq | hlt
  · exact heq
  · exact absurd hcount hlt.ne'

theorem GainsProbes.of_insertBefore? {b b' : Body} {anchor : Label} {p : Probe}
    (h : b.insertBefore? anchor (.probe p) = some b') : GainsProbes b b' :=
  .inr (probeCount_insertBefore? h ▸ Nat.lt_succ_self _)

/-- A branch is reported whatever its decomposition inserts, and the end of a test is closed with an
end marker. -/
theorem gainsProbes_stepClosed : StepClosed GainsProbes where
  refl _ := .inl rfl
  trans h h' := by
    rcases h with rfl | h
    · exact h'
    · exact .inr (Nat.lt_of_lt_of_le h h'.le)
  insertProbe h := .of_insertBefore? h
  insertEntry {b p} := .inr (b.probeCount_insertEntry (.probe p) ▸ Nat.lt_succ_self _)
  closeEnd {test b} := by
    unfold Lifecycle.closeEnd
    split
    · refine .inr ?_
      rw [probeCount_push, probeCount_push]
      exact Nat.lt_succ_self _
    · exact .inl rfl
  probeBranch h := by
    obtain ⟨condition, rest, b₁, -, hdecompose, hinsert⟩ :=
      Product.exists_decompose_of_probeBranch h
    have hreported := probeCount_insertBefore? (insertBefore_eq_ok hinsert)
    rw [probeCount_setCondition] at hreported
    refine .inr (Nat.lt_of_le_of_lt (probeCount_editClosed.decompose hdecompose) ?_)
    exact hreported ▸ Nat.lt_succ_self _

end Body

/-! ## What outcomes count -/

open ReportEntry

namespace Plan

variable {plan : Plan} {target : MethodTarget} {w w' : Workpiece}

/-- The outcome of a weaver counts the probes afterwards less the probes before. -/
theorem outcomeProbes_apply {weaver : Weaver} {o : Outcome}
    (h : plan.apply weaver target w = .ok o w') :
    outcomeProbes o = w'.body.probeCount - w.body.probeCount := by
  cases weaver with
  | product => exact (Product.weave_reports h).outcomeProbes_eq
  | fieldAccess => exact (FieldAccess.weave_reports (onBody_eq_ok h).1).outcomeProbes_eq
  | lifecycle => exact (Lifecycle.weave_reports (onBody_eq_ok h).1).outcomeProbes_eq

/-- Nothing is lost in the subtraction. -/
theorem probeCount_apply {weaver : Weaver} {o : Outcome}
    (h : plan.apply weaver target w = .ok o w') :
    w.body.probeCount + outcomeProbes o = w'.body.probeCount := by
  have hle : w.body.probeCount ≤ w'.body.probeCount := Body.probeCount_editClosed.apply h
  rw [outcomeProbes_apply h, Nat.add_sub_cancel' hle]

/-- The outcomes of weavers one after another count the probes that the body has gained in all. -/
theorem probeCount_applyAll {weavers : List Weaver} {outcomes : List Outcome}
    (h : plan.applyAll target weavers w = .ok (outcomes, w')) (owner : String) :
    w.body.probeCount + (processed owner outcomes).probes = w'.body.probeCount := by
  induction weavers generalizing w outcomes with
  | nil =>
    cases h
    rfl
  | cons weaver rest ih =>
    obtain ⟨o, w₁, others, hweaver, -, hrest, rfl⟩ := applyAll_cons_eq_ok.1 h
    have hfirst := probeCount_apply hweaver
    have hothers := ih hrest
    have hcons : (processed owner (o :: others)).probes =
        outcomeProbes o + (processed owner others).probes := rfl
    omega

end Plan

end TraceWeave
