import TraceWeave.Proofs.Weave.Methods
import TraceWeave.Proofs.Weave.RequestedLines

/-!
# Properties that weaving keeps

Some properties that all operations and all variables of a body have are kept by weaving.  An
`Upkeep` is such a property with the few facts that this takes: it holds of marks, and where it
holds of a branch, it holds of the script that decomposes the condition.  `Upkeep.applyAll` says
that weavers keep it.
-/

namespace TraceWeave

/-- What operations and declared variables may be in a source file, where weaving keeps them so. -/
structure Upkeep (file : String) where
  /-- The operations that there may be. -/
  op : Operation → Prop
  /-- The variables that may be declared. -/
  var : Local → Prop
  /-- Jumps may be turned. -/
  retarget : ∀ {o} (f : Label → Label), op o → op (o.retarget f)
  /-- The operations of the script of a condition, what is left of it, and the temporaries. -/
  script : ∀ {site e t locals s}, site.file = file → op (.branch e t) → (∀ x ∈ locals, var x) →
    script site e locals = .ok s →
      (∀ o ∈ s.ops, op o) ∧ op (.branch s.rest t) ∧ ∀ x ∈ s.locals, var x
  /-- A line may be reported. -/
  lineReached : ∀ {line}, op (.probe (.lineReached file line))
  /-- A branch may be reported. -/
  branchReached : ∀ {line index}, op (.probe (.branchReached file line index))
  /-- A field may be reported that is read in an assignment. -/
  fieldRead : ∀ {place value f line}, op (.assign place value) → f ∈ value.fieldReads →
    op (.probe (.fieldRead file line f.qualifiedName))

namespace Upkeep

variable {file : String}

/-- The property holds of all operations and variables of a body. -/
structure Holds (D : Upkeep file) (b : Body) : Prop where
  ops : b.All D.op
  locals : ∀ x ∈ b.locals, D.var x

variable (D : Upkeep file) {b b' : Body}

/-! ## Edits -/

theorem insertBefore {anchor : Label} {op : Operation} {u : Unit} (hop : D.op op)
    (h : TraceWeave.insertBefore anchor op b = .ok u b') (hb : D.Holds b) : D.Holds b' where
  ops := insertBefore?_all D.retarget hop (insertBefore_eq_ok h) hb.ops
  locals := insertBefore_locals h ▸ hb.locals

theorem insertAll {l : List (Label × Operation)} (hl : ∀ e ∈ l, D.op e.2) {u : Unit}
    (h : TraceWeave.insertAll l b = .ok u b') (hb : D.Holds b) : D.Holds b' := by
  induction l generalizing b with
  | nil =>
    cases h
    exact hb
  | cons e rest ih =>
    obtain ⟨_, b₁, hinsert, h⟩ := bind_eq_ok.1 h
    exact ih (fun e he => hl e (by simp [he])) h (D.insertBefore (hl e (by simp)) hinsert hb)

/-- Where a condition may stand, it may stand with any jump. -/
theorem of_condition? {label : Label} {condition : Expr} (hb : b.All D.op)
    (h : b.condition? label = some condition) (t : Label) : D.op (.branch condition t) := by
  obtain ⟨i, hi, h⟩ := Option.bind_eq_some_iff.1 h
  have hop := hb i (List.mem_of_find?_eq_some hi)
  split at h
  · next c t' heq =>
    cases h
    rw [heq] at hop
    exact D.retarget (fun _ => t) hop
  · cases h

theorem setCondition {label : Label} {condition : Expr}
    (hcondition : ∀ t, D.op (.branch condition t)) (hb : b.All D.op) :
    (b.setCondition label condition).All D.op := by
  have hinstrs : List.Forall₂ (fun i j : Instr => D.op i.op → D.op j.op) b.instrs
      (b.setCondition label condition).instrs := by
    refine b.setCondition_forall₂ (fun _ h => h) (fun i h => ?_) label
    unfold Instr.setCondition
    split
    · exact hcondition _
    · exact h
  intro j hj
  obtain ⟨i, hi, hij⟩ := exists_of_mem_forall₂ hinstrs hj
  exact hij (hb i hi)

/-! ## Weavers -/

theorem probeBranches {target : MethodTarget} (hfile : target.file = file)
    {branches : List (Label × UInt32 × UInt32)} {u : Unit}
    (h : Product.probeBranches target branches b = .ok u b') (hb : D.Holds b) : D.Holds b' := by
  induction branches generalizing b with
  | nil =>
    cases h
    exact hb
  | cons e rest ih =>
    obtain ⟨_, b₁, hbranch, h⟩ := bind_eq_ok.1 h
    refine ih h ?_
    obtain ⟨condition, s, b₂, hcondition, hs, hlocals, hadds, hinsert⟩ :=
      Product.probeBranch_eq_ok hbranch
    have hscript := fun t => D.script hfile (D.of_condition? hb.ops hcondition t) hb.locals hs
    have hops : ∀ l, ∀ op ∈ onlyAt e.1 s.ops l, D.op op := by
      intro l op hop
      unfold onlyAt at hop
      split at hop
      · exact (hscript l).1 op hop
      · cases hop
    refine D.insertBefore (hfile ▸ D.branchReached) hinsert ⟨?_, ?_⟩
    · exact D.setCondition (fun t => (hscript t).2.1) (hadds.all D.retarget hops hb.ops)
    · rw [Body.setCondition_locals, hlocals]
      exact (hscript e.1).2.2

theorem product {settings : Settings} {selection : LineSelection} {target : MethodTarget}
    (hfile : target.file = file) {w w' : Workpiece} {o : Outcome}
    (h : Product.weave settings selection target w = .ok o w') (hw : D.Holds w.body) :
    D.Holds w'.body := by
  rcases Product.weave_eq_ok h with ⟨-, rfl⟩ | ⟨u, hprobe⟩
  · exact hw
  · obtain ⟨added, b, u₁, u₂, -, hinsert, hbranches⟩ := Product.probe_eq_ok hprobe
    refine D.probeBranches hfile hbranches (D.insertAll (fun e he => ?_) hinsert hw)
    obtain ⟨_, -, rfl⟩ := List.mem_map.1 he
    exact hfile ▸ D.lineReached

theorem fieldAccess {settings : Settings} {fields : FieldSelection} {target : MethodTarget}
    (hfile : target.file = file) {o : Outcome}
    (h : FieldAccess.weave settings fields target b = .ok o b') (hb : D.Holds b) :
    D.Holds b' := by
  obtain ⟨u, hinsert⟩ := FieldAccess.weave_eq_ok h
  refine D.insertAll (fun e he => ?_) hinsert hb
  obtain ⟨i, hi, he⟩ := List.mem_flatMap.1 he
  obtain ⟨p, hp, rfl⟩ := List.mem_map.1 he
  obtain ⟨r, hr, rfl⟩ := FieldAccess.exists_read_of_mem_probesBefore hp
  unfold FieldAccess.readsOf at hr
  split at hr
  · next place value heq =>
    obtain ⟨name, hname, rfl⟩ := List.mem_map.1 hr
    obtain ⟨f, hf, rfl⟩ := List.mem_map.1 (mem_ascending.1 hname)
    exact hfile ▸ D.fieldRead (heq ▸ hb.ops i hi) (List.mem_filter.1 hf).1
  · cases hr

theorem push {line : Int32} {op : Operation} (hop : D.op op) (hb : D.Holds b) :
    D.Holds (b.push line op) := by
  refine ⟨fun i hi => ?_, hb.locals⟩
  rcases List.mem_append.1 hi with hi | hi
  · exact hb.ops i hi
  · rw [List.mem_singleton.1 hi]
    exact hop

/-- What a weaver of test markers asks for. -/
structure Markers (D : Upkeep file) (test : String) : Prop where
  start : D.op (.probe (.testStart test))
  finish : D.op (.probe (.testEnd test))
  ret : D.op (.ret none)

theorem mark {test : String} (hmarkers : D.Markers test) {u : Unit}
    (h : Lifecycle.mark test b = .ok u b') (hb : D.Holds b) : D.Holds b' := by
  obtain ⟨b₁, u₁, hends, rfl⟩ := Lifecycle.mark_eq_ok h
  have hended : D.Holds b₁ := D.insertAll (fun e he => by
    obtain ⟨_, -, rfl⟩ := List.mem_map.1 he
    exact hmarkers.finish) hends hb
  have hclosed : D.Holds (Lifecycle.closeEnd test b₁) := by
    unfold Lifecycle.closeEnd
    split
    · exact D.push hmarkers.ret (D.push hmarkers.finish hended)
    · exact hended
  refine ⟨fun i hi => ?_, hclosed.locals⟩
  rcases List.mem_cons.1 hi with rfl | hi
  · exact hmarkers.start
  · exact hclosed.ops i hi

theorem lifecycle {settings : Settings} {target : MethodTarget}
    (hmarkers : D.Markers target.signature) {o : Outcome}
    (h : Lifecycle.weave settings target b = .ok o b') (hb : D.Holds b) : D.Holds b' := by
  rcases Lifecycle.weave_eq_ok h with ⟨-, rfl⟩ | ⟨-, u, hmark⟩
  · exact hb
  · exact D.mark hmarkers hmark hb

/-- Weavers keep the property, if markers have it where there is a weaver of markers. -/
theorem applyAll {plan : Plan} {target : MethodTarget} (hfile : target.file = file)
    {weavers : List Weaver} (hmarkers : .lifecycle ∈ weavers → D.Markers target.signature)
    {w w' : Workpiece} {outcomes : List Outcome}
    (h : plan.applyAll target weavers w = .ok (outcomes, w')) (hw : D.Holds w.body) :
    D.Holds w'.body := by
  induction weavers generalizing w outcomes with
  | nil =>
    cases h
    exact hw
  | cons weaver rest ih =>
    obtain ⟨_, w₁, _, hweaver, -, hrest, -⟩ := Plan.applyAll_cons_eq_ok.1 h
    refine ih (fun h => hmarkers (List.mem_cons_of_mem _ h)) hrest ?_
    cases weaver with
    | product => exact D.product hfile hweaver hw
    | fieldAccess => exact D.fieldAccess hfile (onBody_eq_ok hweaver).1 hw
    | lifecycle =>
      exact D.lifecycle (hmarkers List.mem_cons_self) (onBody_eq_ok hweaver).1 hw

end Upkeep

end TraceWeave
