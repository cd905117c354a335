import TraceWeave.Proofs.Weave.LineKeys
import Mathlib.Data.List.Flatten

/-!
# Which field reads get probes

The field weaver puts a probe before each assignment that reads monitored fields.  It runs after the
product weaver, whose temporaries are assigned too: decomposing a branch on a requested line
computes the calls in its condition into temporaries, and what their arguments read gets probes like
any other read, without a line.  `Plan.fieldProbes` lists the probes of a method, and
`ProductPhase.newFieldProbes_eq` says that these are the ones that the method gets.

So the field probes of a method depend on the requested lines, by the calls in conditions and by
nothing else (`Plan.newFieldProbes_eq_iff`).
-/

namespace TraceWeave

namespace FieldAccess

variable (fields : FieldSelection) (file : String)

/-- The probes of the reads of an inserted operation, which has no line. -/
def probesOf : Operation → List Probe
  | .assign _ value => (monitoredReads fields value).map (.fieldRead file 0)
  | _ => []

/-- The probes of the reads of the calls in a condition. -/
def callProbes (condition : Expr) : List Probe :=
  condition.outermostCalls.flatMap fun call => (monitoredReads fields call).map (.fieldRead file 0)

/-- The probes that come in because an instruction is decomposed: those of the calls in the
condition of a branch on one of the lines. -/
def decomposedProbes (lines : List UInt32) (i : Instr) : List Probe :=
  match i.op with
  | .branch condition _ =>
    if i.sourceLine?.any lines.contains then callProbes fields file condition else []
  | _ => []

variable {fields file}

theorem monitoredReads_eq_nil {e : Expr} (h : e.fieldReads = []) :
    monitoredReads fields e = [] := by
  rw [monitoredReads, h]
  rfl

theorem map_probe_readsOf_wovenInstr (e : Label × Operation) :
    (readsOf fields (wovenInstr e)).map (Read.probe file) = probesOf fields file e.2 := by
  obtain ⟨label, op⟩ := e
  cases op with
  | assign target value => simp [readsOf, wovenInstr, probesOf, Read.probe, Instr.sourceLine?]
  | _ => rfl

theorem readsOf_retarget (f : Label → Label) (i : Instr) :
    readsOf fields (i.retarget f) = readsOf fields i := by
  obtain ⟨label, line, op⟩ := i
  cases op <;> rfl

theorem readsOf_of_isBranch {i : Instr} (h : i.op.isBranch = true) : readsOf fields i = [] := by
  obtain ⟨label, line, op⟩ := i
  cases op <;> first | rfl | cases h

/-! ## Reads of scripts -/

/-- The assignments of a script read what the calls of its expression read, and what is left of the
expression reads no field. -/
theorem flatMap_probesOf_script {site : BranchSite} {e : Expr} {locals : List Local} {s : Script}
    (h : script site e locals = .ok s) :
    s.ops.flatMap (probesOf fields file) = callProbes fields file e ∧ s.rest.fieldReads = [] := by
  have hheld : ∀ (ops : List Operation) value source locals,
      (Script.held site ops value source locals).ops.flatMap (probesOf fields file) =
        ops.flatMap (probesOf fields file) ++
          (monitoredReads fields value).map (.fieldRead file 0) := by
    intro ops value source locals
    simp [Script.held, probesOf, Script.captureOp]
  have hoperand : ∀ s : Script, s.rest.fieldReads = [] →
      (s.operand site).ops.flatMap (probesOf fields file) =
        s.ops.flatMap (probesOf fields file) := by
    intro s hrest
    rcases s.operand_cases site with ⟨x, -, hs⟩ | ⟨-, hs⟩
    · rw [hs]
    · rw [hs, hheld, monitoredReads_eq_nil hrest, List.map_nil, List.append_nil]
  induction e generalizing locals s with
  | value v =>
    cases h
    refine ⟨(hheld _ _ _ _).trans ?_, rfl⟩
    rw [monitoredReads_eq_nil rfl]
    rfl
  | var x =>
    cases h
    exact ⟨rfl, rfl⟩
  | call callee args =>
    cases h
    refine ⟨(hheld _ _ _ _).trans ?_, rfl⟩
    simp [callProbes, Expr.outermostCalls]
  | unary op e ih =>
    obtain ⟨t, ht, rfl⟩ := script_unary_eq_ok h
    obtain ⟨hops, hrest⟩ := ih ht
    have hvalue : (Decomposition.unaryOver op (t.operand site).var).fieldReads = [] := by
      cases op <;> rfl
    refine ⟨(hheld _ _ _ _).trans ?_, rfl⟩
    rw [monitoredReads_eq_nil hvalue, List.map_nil, List.append_nil, hoperand t hrest, hops]
    rfl
  | binary op l r ihl ihr =>
    obtain ⟨t, u, -, ht, hu, rfl⟩ := script_binary_eq_ok h
    obtain ⟨hopsl, hrestl⟩ := ihl ht
    obtain ⟨hopsr, hrestr⟩ := ihr hu
    refine ⟨?_, rfl⟩
    simp [Script.ofBinary, hoperand, hrestl, hrestr, hopsl, hopsr, callProbes,
      Expr.outermostCalls, Script.conditionOp, probesOf]
  | field f => cases h
  | unmapped description ty => cases h

/-! ## Reads of what the product weaver leaves -/

theorem decomposedProbes_eq_nil_of_not_mem {lines : List UInt32} {b : Body} {i : Instr}
    (hi : i ∈ b.instrs) (hnot : i.label ∉ (Product.selectedBranches lines b).map (·.1)) :
    decomposedProbes fields file lines i = [] := by
  unfold decomposedProbes
  split
  · next condition t hop =>
    refine if_neg fun hline => hnot ?_
    obtain ⟨n, hn, hcontains⟩ := (Option.any_eq_true _ _).1 hline
    rw [Product.selectedBranches, Product.map_label_numbered]
    refine List.mem_map.2 ⟨(i.label, n), Product.mem_branchesOn.2 ?_, rfl⟩
    exact ⟨i, hi, by rw [hop]; rfl, hn, List.contains_iff_mem.1 hcontains, rfl⟩
  · rfl

theorem decomposedProbes_of_branch {lines : List UInt32} {i : Instr} {condition : Expr} {t : Label}
    {line : UInt32} (hop : i.op = .branch condition t) (hline : i.sourceLine? = some line)
    (hmem : line ∈ lines) :
    decomposedProbes fields file lines i = callProbes fields file condition := by
  simp [decomposedProbes, hop, hline, hmem]

/-- What a slot of the product weaver reads: what its instruction read, and what comes in because it
is decomposed. -/
theorem flatMap_readsOf_emit {target : MethodTarget} {lines : List UInt32} {b : Body}
    (hnodup : b.labels.Nodup) {declared available : List Local} {added : List (UInt32 × Label)}
    {i : Instr} (hi : i ∈ b.instrs) {s : Slot} {ops : List Operation}
    (hops : s.ops = Product.lineProbes target.file added i.label ++ ops)
    (hbranches : Product.Branches target (Product.selectedBranches lines b) declared available i ops
      s.instr) (destination : Label → Label) :
    (s.emit destination).flatMap (fun j => (readsOf fields j).map (Read.probe file)) =
      (readsOf fields i).map (Read.probe file) ++ decomposedProbes fields file lines i := by
  have hwoven : (s.woven.map wovenInstr).flatMap
      (fun j => (readsOf fields j).map (Read.probe file)) =
        ops.flatMap (probesOf fields file) := by
    have hlines : (Product.lineProbes target.file added i.label).flatMap (probesOf fields file) =
        [] := by
      simp [Product.lineProbes, probesOf, List.flatMap_map]
    rw [List.flatMap_map]
    simp only [map_probe_readsOf_wovenInstr]
    rw [← List.flatMap_map (f := Prod.snd), ← Slot.ops, hops, List.flatMap_append, hlines,
      List.nil_append]
  rw [Slot.emit, List.flatMap_append, hwoven, List.flatMap_singleton, readsOf_retarget]
  rcases hbranches with ⟨hnot, rfl, hinstr⟩ | ⟨line, index, hmem, hdecomposed⟩
  · rw [hinstr, decomposedProbes_eq_nil_of_not_mem hi hnot]
    simp
  · obtain ⟨condition, t, before, script, hop, -, hscript, -, rfl, hinstr⟩ := hdecomposed
    obtain ⟨hbranch, hline, hlines⟩ := Product.of_mem_selectedBranches hnodup hi hmem
    have hreads : script.ops.flatMap (probesOf fields file) = callProbes fields file condition :=
      (flatMap_probesOf_script hscript).1
    rw [decomposedProbes_of_branch hop hline hlines, readsOf_of_isBranch hbranch,
      readsOf_of_isBranch (by rw [hinstr]; rfl), List.flatMap_append, hreads]
    simp [probesOf, Script.reachedOp]

end FieldAccess

/-! ## New field probes of a method -/

/-- The probe of an operation that reports the read of a field. -/
def Operation.fieldProbe? : Operation → Option Probe
  | .probe (.fieldRead file line field) => some (.fieldRead file line field)
  | _ => none

/-- A field probe that is new: no instruction had its label before. -/
def Instr.newFieldProbe? (old : List Label) (i : Instr) : Option Probe :=
  if i.label ∈ old then none else i.op.fieldProbe?

theorem Instr.newFieldProbe?_retarget (old : List Label) (f : Label → Label) (i : Instr) :
    (i.retarget f).newFieldProbe? old = i.newFieldProbe? old := by
  have hop : (i.op.retarget f).fieldProbe? = i.op.fieldProbe? := by cases i.op <;> rfl
  simp only [newFieldProbe?, retarget, hop]

/-- The field probes that are new in a woven body, in program order. -/
def Body.newFieldProbes (original woven : Body) : List Probe :=
  woven.instrs.filterMap (Instr.newFieldProbe? original.labels)

theorem Operation.fieldProbe?_of_isPart {site : BranchSite} {op : Operation} (h : op.IsPart site) :
    op.fieldProbe? = none := by
  rcases h with ⟨x, value, rfl⟩ | ⟨x, source, rfl⟩ | ⟨x, binary, y, rfl⟩ <;> rfl

theorem Product.fieldProbe?_of_branches {target : MethodTarget}
    {branches : List (Label × UInt32 × UInt32)} {declared available : List Local} {i i' : Instr}
    {ops : List Operation} (h : Branches target branches declared available i ops i') :
    ∀ op ∈ ops, op.fieldProbe? = none := by
  intro op hop
  rcases h with ⟨-, rfl, -⟩ | ⟨line, index, -, condition, t, before, s, -, -, hs, -, rfl, -⟩
  · cases hop
  · rcases List.mem_append.1 hop with hop | hop
    · exact Operation.fieldProbe?_of_isPart (isPart_of_mem_script hs op hop)
    · rw [List.mem_singleton.1 hop]
      rfl

/-- The field probes that the product phase inserts into a method, in program order. -/
def Plan.fieldProbes (plan : Plan) (target : MethodTarget) (b : Body) : List Probe :=
  b.instrs.flatMap fun i =>
    FieldAccess.probesBefore plan.settings plan.fields target i ++
      FieldAccess.decomposedProbes plan.fields target.file
        (Product.linesIn plan.settings plan.lines target b) i

namespace ProductPhase

variable {plan : Plan} {target : MethodTarget} {w w' : Workpiece} {added : List (UInt32 × Label)}
  {b : Body} {y y' : Layout} (h : ProductPhase plan target w w' added b y y')

include h

/-- When the product weaver is done, there are no new field probes. -/
theorem newFieldProbe?_eq_none {i : Instr} (hi : i ∈ b.instrs) :
    i.newFieldProbe? w.body.labels = none := by
  rw [h.instrs_eq] at hi
  obtain ⟨j, -, s, hs, ⟨ops, hops, hbranches⟩, ⟨e, he, rfl⟩ | rfl⟩ :=
    exists_of_mem_flatMap_emit h.slots hi
  · have hop : e.2 ∈ s.ops := List.mem_map_of_mem he
    have hnone : e.2.fieldProbe? = none := by
      rw [hops] at hop
      rcases List.mem_append.1 hop with hop | hop
      · obtain ⟨a, -, heq⟩ := List.mem_map.1 hop
        rw [← heq]
        rfl
      · exact Product.fieldProbe?_of_branches hbranches _ hop
    rw [Instr.newFieldProbe?, wovenInstr_op, hnone]
    exact ite_self none
  · exact if_pos (h.origins_eq ▸ Layout.mem_origins_of_mem hs)

/-- The new field probes are those that the field weaver inserts into what the product weaver has
left. -/
theorem newFieldProbes_eq_flatMap : w.body.newFieldProbes w'.body =
    b.instrs.flatMap (FieldAccess.probesBefore plan.settings plan.fields target) := by
  obtain ⟨outcome, hfield⟩ := h.woven'
  obtain ⟨-, y'', hy, hopening, hclosing, hslots⟩ :=
    FieldAccess.weave_probesBefore hfield h.nodup'
  have horigins : y''.origins = b.labels :=
    Layout.origins_eq_labels (hslots.imp fun _ _ hs => .of_eq hs.1)
  have hlabels := hy.labels_nodup h.nodup'
  rw [Body.newFieldProbes, hy.instrs_eq_flatMap hopening hclosing,
    List.filterMap_eq_flatMap_toList]
  refine Layout.flatMap_flatMap_emit ((List.forall₂_and_left _ _).2 ⟨fun i hi => hi, hslots⟩) _ ?_
  rintro _ s hs ⟨hi, rfl, hops⟩
  -- What the field weaver has woven into the slot is new.
  have hwoven : (s.woven.map wovenInstr).filterMap (Instr.newFieldProbe? w.body.labels) =
      s.ops.filterMap Operation.fieldProbe? := by
    rw [Slot.ops, List.filterMap_map, List.filterMap_map]
    refine List.filterMap_congr fun e he => if_neg fun hmem => ?_
    exact Layout.woven_ne_origin hlabels (Layout.mem_woven_of_mem_slot hs he)
      (horigins ▸ h.labels_subset hmem) rfl
  have hprobes : ∀ p ∈ FieldAccess.probesBefore plan.settings plan.fields target s.instr,
      (Operation.probe p).fieldProbe? = some p := by
    intro p hp
    unfold FieldAccess.probesBefore at hp
    split at hp
    · cases hp
    · obtain ⟨r, -, rfl⟩ := List.mem_map.1 hp
      rfl
  rw [← List.filterMap_eq_flatMap_toList, Slot.emit, List.filterMap_append, hwoven,
    List.filterMap_cons_none
      ((Instr.newFieldProbe?_retarget _ _ _).trans (h.newFieldProbe?_eq_none hi)),
    List.filterMap_nil, List.append_nil, hops, List.filterMap_map]
  exact (List.filterMap_congr hprobes).trans List.filterMap_some

/-- The field probes that a method gets. -/
theorem newFieldProbes_eq :
    w.body.newFieldProbes w'.body = plan.fieldProbes target w.body := by
  rw [h.newFieldProbes_eq_flatMap, Plan.fieldProbes]
  unfold FieldAccess.probesBefore Product.linesIn
  cases hskip : productSkip? plan.settings target with
  | some reason =>
    have hnothing : ∀ i, FieldAccess.decomposedProbes plan.fields target.file [] i = [] := by
      intro i
      unfold FieldAccess.decomposedProbes
      split
      · cases i.sourceLine? <;> rfl
      · rfl
    have hnone : ∀ l : List Instr, (l.flatMap fun _ => ([] : List Probe)) = [] :=
      fun l => List.flatMap_eq_nil_iff.2 fun _ _ => rfl
    simp only [hnothing, List.append_nil, hnone]
  | none =>
    rw [h.instrs_eq]
    have hslots := h.slots
    rw [Product.linesIn, hskip] at hslots
    refine Layout.flatMap_flatMap_emit ((List.forall₂_and_left _ _).2 ⟨fun i hi => hi, hslots⟩) _ ?_
    rintro i s - ⟨hi, ops, hops, hbranches⟩
    exact FieldAccess.flatMap_readsOf_emit h.origins_nodup hi hops hbranches _

end ProductPhase

/-! ## Field probes and requested lines -/

/-- Putting further members in between makes a list another one, unless there are none. -/
theorem flatMap_append_eq_flatMap_iff {α β : Type} {l : List α} {f g : α → List β} :
    (l.flatMap fun a => f a ++ g a) = l.flatMap f ↔ ∀ a ∈ l, g a = [] := by
  constructor
  · intro h
    have hlength := (List.flatMap_append_perm l f g).length_eq
    rw [h, List.length_append, Nat.add_eq_left, List.length_eq_zero_iff] at hlength
    exact List.flatMap_eq_nil_iff.1 hlength
  · exact fun h => List.flatMap_congr fun a ha => by rw [h a ha, List.append_nil]

namespace Plan

variable {plan : Plan} {p : Program} {s : Session} {k : Nat} {c : Class} {m m' : Method}

theorem newFieldProbes_of_isClean (hclean : (plan.weaveProduct p s).2.2.isClean)
    (hm : p.methodList[k]? = some (c, m))
    (hm' : ((plan.weaveProduct p s).1.classes.flatMap (·.methods))[k]? = some m') :
    m.body.newFieldProbes m'.body = plan.fieldProbes (.of c m) m.body := by
  obtain ⟨outcomes, w, happly, hwoven, -⟩ := exists_applyAll_of_isClean hclean hm
  obtain ⟨added, b, y, y', hphase⟩ := exists_productPhase happly
  obtain rfl := Option.some.inj (hwoven.symm.trans hm')
  exact hphase.newFieldProbes_eq

/-- Field probes depend on the requested lines exactly by the calls in conditions.  When the product
phase goes through on a program under two selections of lines, with the same settings and monitored
fields, the new field probes of a method are the same if and only if `Plan.fieldProbes` is: before
each assignment the monitored fields that it reads, under either selection, and before each branch
on a line that the selection brings in, with line zero, those that the calls in its condition read.
So they are the probes of the assignments alone if and only if no call in the condition of such a
branch reads a monitored field. -/
theorem newFieldProbes_eq_iff {lines : LineSelection} {s' : Session} {m₁ m₂ : Method}
    (hclean : (plan.weaveProduct p s).2.2.isClean)
    (hclean' : (weaveProduct { plan with lines } p s').2.2.isClean)
    (hm : p.methodList[k]? = some (c, m))
    (h₁ : ((plan.weaveProduct p s).1.classes.flatMap (·.methods))[k]? = some m₁)
    (h₂ : ((weaveProduct { plan with lines } p s').1.classes.flatMap (·.methods))[k]? = some m₂) :
    (m.body.newFieldProbes m₁.body = m.body.newFieldProbes m₂.body ↔
        plan.fieldProbes (.of c m) m.body = fieldProbes { plan with lines } (.of c m) m.body) ∧
      (m.body.newFieldProbes m₁.body = m.body.instrs.flatMap
          (FieldAccess.probesBefore plan.settings plan.fields (.of c m)) ↔
        ∀ i ∈ m.body.instrs, ∀ condition target, i.op = .branch condition target →
          i.sourceLine?.any (Product.linesIn plan.settings plan.lines (.of c m) m.body).contains →
            ∀ call ∈ condition.outermostCalls,
              FieldAccess.monitoredReads plan.fields call = []) := by
  rw [newFieldProbes_of_isClean hclean hm h₁, newFieldProbes_of_isClean hclean' hm h₂]
  refine ⟨Iff.rfl, flatMap_append_eq_flatMap_iff.trans (forall₂_congr fun i _ => ?_)⟩
  unfold FieldAccess.decomposedProbes
  cases hop : i.op with
  | branch condition target =>
    by_cases hline :
        i.sourceLine?.any (Product.linesIn plan.settings plan.lines (.of c m) m.body).contains
    · simp [hline, FieldAccess.callProbes]
    · simp [hline]
  | _ => simp

/-- A method with a branch on line 5 whose condition passes a field to a call. -/
def consulting : Method :=
  { name := "consult", returnType := .void
    body := { instrs := [⟨⟨0⟩, 5, .branch
        (.call ⟨"Util", "isLarge", .boolean⟩ [.field ⟨"Foo", "limit", .int⟩]) ⟨1⟩⟩,
      ⟨⟨1⟩, 6, .ret none⟩] } }

/-- A plan that monitors the field and requests line 5. -/
def monitoring : Plan := { requestingFive with fields := ⟨[("Foo", "limit")]⟩ }

/-- With line 5 requested, the read in the condition gets a probe, without a line; with no line
requested, it gets none. -/
theorem newFieldProbes_consulting :
    ∃ m₁ m₂,
      ((monitoring.weaveProduct ⟨[lone consulting]⟩ ∅).1.classes.flatMap (·.methods))[0]? =
        some m₁ ∧
      ((weaveProduct { monitoring with lines := ∅ } ⟨[lone consulting]⟩ ∅).1.classes.flatMap
        (·.methods))[0]? = some m₂ ∧
      consulting.body.newFieldProbes m₁.body = [.fieldRead "Foo.java" 0 "Foo.limit"] ∧
      consulting.body.newFieldProbes m₂.body = [] ∧
      monitoring.fieldProbes (.of (lone consulting) consulting) consulting.body ≠
        fieldProbes { monitoring with lines := ∅ } (.of (lone consulting) consulting)
          consulting.body := by
  refine ⟨_, _, rfl, rfl, rfl, rfl, fun heq => ?_⟩
  have hsame := (@newFieldProbes_eq_iff monitoring ⟨[lone consulting]⟩ ∅ 0 (lone consulting)
    consulting ∅ ∅ _ _ rfl rfl rfl rfl rfl).1.2 heq
  have hprobed : [Probe.fieldRead "Foo.java" 0 "Foo.limit"] = [] := hsame
  cases hprobed

end Plan

end TraceWeave
