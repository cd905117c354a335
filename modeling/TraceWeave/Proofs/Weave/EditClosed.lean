import TraceWeave.Proofs.Weave.Product
import TraceWeave.Proofs.Weave.Simulation

/-!
# What every weaver respects

A weaver takes a few kinds of steps: it inserts probes before instructions and at the entry, closes
the end of a body, and decomposes and reports branches.  So a relation between bodies that each of
these steps respects, and that can be composed, holds between what a weaver is given and what it
leaves (`StepClosed.apply`), and between what weavers are given and what the last of them leaves
(`StepClosed.applyAll`).

Steps consist of edits: instructions are inserted and appended, branches get new conditions, and
values are put into fresh temporaries.  A relation that each edit respects is respected by each step
(`EditClosed.stepClosed`).
-/

namespace TraceWeave

/-! ## Steps -/

/-- A relation between bodies that every step of a weaver respects. -/
structure StepClosed (R : Body → Body → Prop) : Prop where
  refl : ∀ b, R b b
  trans : ∀ {b b₁ b₂}, R b b₁ → R b₁ b₂ → R b b₂
  /-- Probes may be inserted before instructions. -/
  insertProbe : ∀ {b b' anchor p}, b.insertBefore? anchor (.probe p) = some b' → R b b'
  /-- Probes may be inserted at the entry. -/
  insertEntry : ∀ {b p}, R b (b.insertEntry (.probe p))
  /-- The end of a test may be closed. -/
  closeEnd : ∀ {test b}, R b (Lifecycle.closeEnd test b)
  /-- Branches may be decomposed and reported. -/
  probeBranch : ∀ {target label site u b b'},
    Product.probeBranch target label site b = .ok u b' → R b b'

namespace StepClosed

variable {R : Body → Body → Prop} (hR : StepClosed R) {b b' : Body}

include hR

theorem insertAll {l : List (Label × Operation)} (hl : ∀ e ∈ l, ∃ p, e.2 = .probe p) {u : Unit}
    (h : TraceWeave.insertAll l b = .ok u b') : R b b' := by
  induction l generalizing b with
  | nil =>
    cases h
    exact hR.refl _
  | cons e rest ih =>
    obtain ⟨label, op⟩ := e
    obtain ⟨p, rfl⟩ : ∃ p, op = .probe p := hl (label, op) (by simp)
    obtain ⟨_, b₁, hinsert, h⟩ := bind_eq_ok.1 h
    exact hR.trans (hR.insertProbe (insertBefore_eq_ok hinsert))
      (ih (fun e he => hl e (by simp [he])) h)

theorem probeBranches {target : MethodTarget} {branches : List (Label × UInt32 × UInt32)}
    {u : Unit} (h : Product.probeBranches target branches b = .ok u b') : R b b' := by
  induction branches generalizing b with
  | nil =>
    cases h
    exact hR.refl _
  | cons e rest ih =>
    obtain ⟨_, b₁, hbranch, h⟩ := bind_eq_ok.1 h
    exact hR.trans (hR.probeBranch hbranch) (ih h)

theorem product {settings : Settings} {selection : LineSelection} {target : MethodTarget}
    {w w' : Workpiece} {o : Outcome} (h : Product.weave settings selection target w = .ok o w') :
    R w.body w'.body := by
  rcases Product.weave_eq_ok h with ⟨-, rfl⟩ | ⟨u, hprobe⟩
  · exact hR.refl _
  · obtain ⟨added, b, u₁, u₂, -, hinsert, hbranches⟩ := Product.probe_eq_ok hprobe
    refine hR.trans (hR.insertAll (fun e he => ?_) hinsert) (hR.probeBranches hbranches)
    obtain ⟨_, -, rfl⟩ := List.mem_map.1 he
    exact ⟨_, rfl⟩

theorem fieldAccess {settings : Settings} {fields : FieldSelection} {target : MethodTarget}
    {o : Outcome} (h : FieldAccess.weave settings fields target b = .ok o b') : R b b' := by
  obtain ⟨u, hinsert⟩ := FieldAccess.weave_eq_ok h
  refine hR.insertAll (fun e he => ?_) hinsert
  obtain ⟨i, -, he⟩ := List.mem_flatMap.1 he
  obtain ⟨p, -, rfl⟩ := List.mem_map.1 he
  exact ⟨p, rfl⟩

theorem lifecycle {settings : Settings} {target : MethodTarget} {o : Outcome}
    (h : Lifecycle.weave settings target b = .ok o b') : R b b' := by
  rcases Lifecycle.weave_eq_ok h with ⟨-, rfl⟩ | ⟨-, u, hmark⟩
  · exact hR.refl _
  · obtain ⟨b₁, u₁, hends, rfl⟩ := Lifecycle.mark_eq_ok hmark
    have hended : R b b₁ := hR.insertAll (fun e he => by
      obtain ⟨_, -, rfl⟩ := List.mem_map.1 he
      exact ⟨_, rfl⟩) hends
    exact hR.trans hended (hR.trans hR.closeEnd hR.insertEntry)

/-- What every step respects, every weaver that goes through respects. -/
theorem apply {plan : Plan} {weaver : Weaver} {target : MethodTarget} {w w' : Workpiece}
    {o : Outcome} (h : plan.apply weaver target w = .ok o w') : R w.body w'.body := by
  cases weaver with
  | product => exact hR.product h
  | fieldAccess => exact hR.fieldAccess (onBody_eq_ok h).1
  | lifecycle => exact hR.lifecycle (onBody_eq_ok h).1

theorem applyAll {plan : Plan} {weavers : List Weaver} {target : MethodTarget} {w w' : Workpiece}
    {outcomes : List Outcome} (h : plan.applyAll target weavers w = .ok (outcomes, w')) :
    R w.body w'.body := by
  induction weavers generalizing w outcomes with
  | nil =>
    cases h
    exact hR.refl _
  | cons weaver rest ih =>
    obtain ⟨_, w₁, _, hweaver, -, hrest, -⟩ := Plan.applyAll_cons_eq_ok.1 h
    exact hR.trans (hR.apply hweaver) (ih hrest)

end StepClosed

/-! ## Edits -/

/-- A relation between bodies that every edit of a weaver respects. -/
structure EditClosed (R : Body → Body → Prop) : Prop where
  refl : ∀ b, R b b
  trans : ∀ {b b₁ b₂}, R b b₁ → R b₁ b₂ → R b b₂
  /-- Probes may be inserted before instructions. -/
  insertProbe : ∀ {b b' anchor p}, b.insertBefore? anchor (.probe p) = some b' → R b b'
  /-- Probes may be inserted at the entry. -/
  insertEntry : ∀ {b p}, R b (b.insertEntry (.probe p))
  /-- Probes may be appended. -/
  pushProbe : ∀ {b p}, R b (b.push 0 (.probe p))
  /-- A return may be appended. -/
  pushReturn : ∀ {b}, R b (b.push 0 (.ret none))
  /-- A branch may get another condition. -/
  setCondition : ∀ {b label condition}, R b (b.setCondition label condition)
  /-- A value may be put into a fresh temporary. -/
  hold : ∀ {b b' anchor value}, (b.addTemporary value.ty).insertBefore? anchor
    (.assign (.var (b.freshLocal value.ty)) value) = some b' → R b b'

namespace EditClosed

variable {R : Body → Body → Prop} (hR : EditClosed R) {b b' : Body}

include hR

theorem of_probe {anchor : Label} {p : Probe} {u : Unit}
    (h : TraceWeave.insertBefore anchor (.probe p) b = .ok u b') : R b b' :=
  hR.insertProbe (insertBefore_eq_ok h)

theorem materialize {d : Decomposition} {value : Expr} {source : Source} {x : Local}
    (h : d.materialize value source b = .ok x b') : R b b' := by
  replace h := get_bind_eq_ok.1 h
  obtain ⟨_, b₁, hadd, h⟩ := bind_eq_ok.1 h
  cases hadd
  obtain ⟨_, b₂, hassign, h⟩ := bind_eq_ok.1 h
  obtain ⟨_, b₃, hcapture, h⟩ := bind_eq_ok.1 h
  cases h
  exact hR.trans (hR.hold (insertBefore_eq_ok hassign)) (hR.of_probe hcapture)

theorem operandOf {d : Decomposition} {e : Expr} {x : Local} (h : d.operandOf e b = .ok x b') :
    R b b' := by
  unfold Decomposition.operandOf at h
  split at h
  · cases h
    exact hR.refl _
  · exact hR.materialize h

/-- What computes an expression into a temporary leaves a read of that. -/
theorem held {d : Decomposition} {value rest : Expr} {source : Source}
    (h : (do return Expr.var (← d.materialize value source)) b = .ok rest b') : R b b' := by
  obtain ⟨x, b₁, hx, h⟩ := bind_eq_ok.1 h
  cases h
  exact hR.materialize hx

theorem decompose {d : Decomposition} {e rest : Expr} (h : d.decompose e b = .ok rest b') :
    R b b' := by
  induction e generalizing b b' rest with
  | value v => exact hR.held h
  | var x =>
    obtain ⟨_, b₁, hcapture, h⟩ := bind_eq_ok.1 h
    cases h
    exact hR.of_probe hcapture
  | unary op e ih =>
    obtain ⟨e₁, b₁, he₁, h⟩ := bind_eq_ok.1 h
    obtain ⟨x, b₂, hx, h⟩ := bind_eq_ok.1 h
    exact hR.trans (ih he₁) (hR.trans (hR.operandOf hx) (hR.held h))
  | binary op l r ihl ihr =>
    rw [Decomposition.decompose] at h
    split at h
    · obtain ⟨_, _, hrefuse, -⟩ := bind_eq_ok.1 h
      cases hrefuse
    · obtain ⟨l₁, b₁, hl, h⟩ := bind_eq_ok.1 h
      obtain ⟨x, b₂, hx, h⟩ := bind_eq_ok.1 h
      obtain ⟨r₁, b₃, hr, h⟩ := bind_eq_ok.1 h
      obtain ⟨y, b₄, hy, h⟩ := bind_eq_ok.1 h
      obtain ⟨_, b₅, hemit, h⟩ := bind_eq_ok.1 h
      cases h
      have hleft := hR.trans (ihl hl) (hR.operandOf hx)
      have hright := hR.trans (ihr hr) (hR.operandOf hy)
      exact hR.trans hleft (hR.trans hright (hR.of_probe hemit))
  | call callee args _ => exact hR.held h
  | field f => cases h
  | unmapped description ty => cases h

theorem probeBranch {target : MethodTarget} {label : Label} {site : BranchSite} {u : Unit}
    (h : Product.probeBranch target label site b = .ok u b') : R b b' := by
  obtain ⟨condition, rest, b₁, -, hdecompose, hinsert⟩ := Product.exists_decompose_of_probeBranch h
  exact hR.trans (hR.decompose hdecompose) (hR.trans hR.setCondition (hR.of_probe hinsert))

/-- What every edit respects, every step respects. -/
theorem stepClosed : StepClosed R where
  refl := hR.refl
  trans := hR.trans
  insertProbe := hR.insertProbe
  insertEntry := hR.insertEntry
  closeEnd {test b} := by
    unfold Lifecycle.closeEnd
    split
    · exact hR.trans hR.pushProbe hR.pushReturn
    · exact hR.refl _
  probeBranch := hR.probeBranch

/-- What every edit respects, every weaver that goes through respects. -/
theorem apply {plan : Plan} {weaver : Weaver} {target : MethodTarget} {w w' : Workpiece}
    {o : Outcome} (h : plan.apply weaver target w = .ok o w') : R w.body w'.body :=
  hR.stepClosed.apply h

theorem applyAll {plan : Plan} {weavers : List Weaver} {target : MethodTarget} {w w' : Workpiece}
    {outcomes : List Outcome} (h : plan.applyAll target weavers w = .ok (outcomes, w')) :
    R w.body w'.body :=
  hR.stepClosed.applyAll h

end EditClosed

end TraceWeave
