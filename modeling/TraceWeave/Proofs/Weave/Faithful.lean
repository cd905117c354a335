import TraceWeave.Proofs.Machine.Repetition
import TraceWeave.Proofs.Weave.FieldProbes
import TraceWeave.Proofs.Weave.Malformed
import TraceWeave.Proofs.Weave.RequestedLines
import TraceWeave.Proofs.Weave.Simulation

/-!
# Rewritten conditions tell the truth

The block that the product weaver puts before a branch tells the recorder about the condition of the
branch (`Plan.block_tells`): a run comes to the branch through its block only, and whenever the
condition can be evaluated, a run through the block reports the nodes of the condition one after
another, each with the value that it has, and then the branch.
-/

namespace TraceWeave

/-! ## Trees of evaluations -/

/-- An evaluation that goes through gives a value to every node. -/
theorem Expr.exists_checkedTree_of_eval {call : Call} {frame : Frame} {e : Expr} {v : Value}
    {s s' : MachineState} (h : e.eval call frame s = .ok v s') :
    ∃ t, t.root = v ∧ e.checkedTree call frame s = .ok t s' := by
  induction e generalizing v s s' with
  | unary op e ih =>
    obtain ⟨w, s₁, he, hop⟩ := bind_eq_ok.1 h
    obtain ⟨t, rfl, ht⟩ := ih he
    refine ⟨.unary v t, rfl, ?_⟩
    rw [checkedTree_unary, bind_of_ok _ ht]
    cases op with
    | not =>
      obtain ⟨hop, rfl⟩ := Frame.operator_eq_ok.1 hop
      unfold ValueTree.over
      cases hroot : t.root <;> rw [hroot] at hop <;> cases hop
      rfl
    | neg => exact bind_of_ok _ hop
    | bitNot => exact bind_of_ok _ hop
  | binary op l r ihl ihr =>
    obtain ⟨v₁, s₁, hl, h⟩ := bind_eq_ok.1 h
    obtain ⟨v₂, s₂, hr, hop⟩ := bind_eq_ok.1 h
    obtain ⟨t, rfl, ht⟩ := ihl hl
    obtain ⟨u, rfl, hu⟩ := ihr hr
    refine ⟨.binary v t u, rfl, ?_⟩
    rw [checkedTree, bind_of_ok _ ht, bind_of_ok _ hu]
    exact bind_of_ok _ hop
  | _ => exact ⟨.leaf v, rfl, bind_of_ok (fun v => (pure (.leaf v) : MachineM ValueTree)) h⟩

/-! ## Runs of blocks -/

/-- The requests report the branch of the site after telling its condition, with line probes at
most before that. -/
def BranchSite.Reports (site : BranchSite) (e : Expr) (t : ValueTree) (frame : Frame)
    (requests : List RecorderRequest) : Prop :=
  ∃ (lines : List UInt32) (events : List Event),
    requests = lines.map (fun n => .event (.exercised site.file n)) ++ events.map .event ++
      [.event site.reachedEvent] ∧
    ToldCondition site (fun x v => frame.locals.get? x.name = some v) e t events

section

variable {calls calls' : Nat → Call}

theorem runLine_lineProbes_follows (file : String) (lines : List UInt32) (frame : Frame) :
    Follows (fun (_ : Unit) q => q = (frame, lines.map fun n => .event (.exercised file n)))
      (fun _ => pure ()) (fun limit => runLine limit (calls' limit)
        (lines.map fun n => .probe (.lineReached file n)) frame) := by
  induction lines with
  | nil => exact .pure rfl
  | cons n rest ih =>
    have happend : ∀ limit, runLine limit (calls' limit)
        ((n :: rest).map fun n => .probe (.lineReached file n)) frame = runLine limit (calls' limit)
          ([.probe (.lineReached file n)] ++ rest.map fun n => .probe (.lineReached file n))
          frame := fun _ => rfl
    simp only [happend, runLine_append]
    refine (runLine_probe_follows rfl).bind_right fun q hq => ?_
    subst hq
    refine ih.bind_right fun q hq => ?_
    subst hq
    exact .pure rfl

variable (hcalls : CallsFollow calls calls')

include hcalls

/-- Wherever a condition has values, running line probes and then its script reports the branch. -/
theorem Expr.eventually_reports {site : BranchSite} {final locals : List Local} {e : Expr}
    (hneg : e.NegatesBooleans) {script : Script}
    (hscript : TraceWeave.script site e locals = .ok script)
    (hnames : ∀ n ∈ e.names, Settled final locals n) (hfinal : script.locals <+: final)
    (lines : List UInt32) {limit : Nat} {frame : Frame} {s s' : MachineState} {t : ValueTree}
    (ht : e.checkedTree (calls limit) frame s = .ok t s') :
    ∀ᶠ limit' in Filter.atTop, ∃ p s₁, runLine limit' (calls' limit')
      (lines.map (fun n => .probe (.lineReached site.file n)) ++
        (script.ops ++ [Script.reachedOp site])) frame s = .ok p s₁ ∧
      site.Reports e t p.1 p.2 := by
  have hrun : Follows (fun t (q : (Frame × List RecorderRequest) × Value) =>
        site.Reports e t q.1.1 q.1.2) (fun limit => e.checkedTree (calls limit) frame)
      (fun limit => runLine limit (calls' limit)
          (lines.map (fun n => .probe (.lineReached site.file n)) ++
            (script.ops ++ [Script.reachedOp site])) frame >>= fun p =>
        countStep limit p.1 >>= fun _ => script.rest.eval (calls' limit) p.1 >>= fun v =>
          pure (p, v)) := by
    simp only [runLine_append _ _ (lines.map _), bind_assoc, pure_bind]
    refine (runLine_lineProbes_follows site.file lines frame).bind_right fun q hq => ?_
    subst hq
    have htold := (e.script_follows hcalls hneg hscript hnames hfinal (.refl e.names frame)).bind
      (S := fun t q => site.Reports e t q.1.1 q.1.2) (f := fun _ t => pure t)
      (g := fun _ q => pure ((q.1.1, lines.map (fun n => .event (.exercised site.file n)) ++ q.1.2),
        q.2)) fun t q hq => ?_
    · simpa only [bind_pure, bind_assoc, pure_bind] using htold
    · obtain ⟨events, hevents, htold⟩ := hq.told
      refine .pure ⟨lines, events, ?_, htold.mono fun x v hx => hx.1⟩
      rw [hevents, List.append_assoc]
  obtain ⟨q, u, hreports, -, hlimit⟩ := hrun.eventually_eq_ok (.refl s) ht
  filter_upwards [hlimit] with limit' hok
  obtain ⟨p, s₁, hline, hok⟩ := bind_eq_ok.1 hok
  obtain ⟨_, s₂, -, hok⟩ := bind_eq_ok.1 hok
  obtain ⟨v, s₃, -, hok⟩ := bind_eq_ok.1 hok
  cases hok
  exact ⟨p, s₁, hline, hreports⟩

end

/-- Wherever a condition has values, the block of its branch can be run through, and every run
through it reports the branch. -/
theorem Body.block_reports {calls : Nat → Call} (hcalls : CallsFollow calls calls)
    {site : BranchSite} {final locals : List Local} {e : Expr} (hneg : e.NegatesBooleans)
    {script : Script} (hscript : TraceWeave.script site e locals = .ok script)
    (hnames : ∀ n ∈ e.names, Settled final locals n) (hfinal : script.locals <+: final)
    {lines : List UInt32} {b : Body} {first : Nat} {ops : List Operation} (hat : b.At first ops)
    (hops : ∀ op ∈ ops, op.IsStraight)
    (hfilter : ops.filter (fun op => !op.isFieldRead) =
      lines.map (fun n => .probe (.lineReached site.file n)) ++
        (script.ops ++ [Script.reachedOp site]))
    {limit : Nat} {frame : Frame} {s s' : MachineState} {t : ValueTree}
    (ht : e.checkedTree (calls limit) frame s = .ok t s') :
    (∃ bound, ∀ limit' ≥ bound, ∃ requests frame₁ s₁, b.Reaches limit' (calls limit')
      (first + ops.length) frame first s requests frame₁ s₁) ∧
    ∀ limit' requests frame₁ s₁,
      b.Reaches limit' (calls limit') (first + ops.length) frame first s requests frame₁ s₁ →
        site.Reports e t frame₁ (requests.filter fun r => !r.isFieldAccess) := by
  obtain ⟨limit₁, p, u, hline, hreports⟩ :=
    (e.eventually_reports hcalls hneg hscript hnames hfinal lines ht).exists
  rw [← hfilter] at hline
  obtain ⟨q, u', hpq, -, hrun⟩ :=
    (runLine_filter_follows hcalls ops frame).eventually_eq_ok (.refl s) hline
  constructor
  · obtain ⟨bound, hbound⟩ := Filter.eventually_atTop.1 hrun
    exact ⟨bound, fun limit' hlimit' => ⟨q.2, q.1, u',
      (reaches_line_iff hops hat rfl).2 (hbound limit' hlimit')⟩⟩
  · intro limit' requests frame₁ s₁ hreach
    obtain ⟨limit₂, hlimit₂⟩ := hrun.exists
    have hself := runLine_follows hcalls ops frame
    obtain ⟨heq, -⟩ := hself.agree hself (.refl s) hlimit₂
      ((reaches_line_iff hops hat rfl).1 hreach)
    subst heq
    have hframe : frame₁ = p.1 := hpq.1
    rw [hframe, ← hpq.2]
    exact hreports

/-! ## The blocks of branches -/

namespace Product

/-- A branch on a requested line is decomposed. -/
theorem Branches.decomposed {target : MethodTarget} {lines : List UInt32} {b : Body}
    {declared available : List Local} {i i' : Instr} {ops : List Operation}
    (h : Branches target (selectedBranches lines b) declared available i ops i')
    (hnodup : b.labels.Nodup) (hi : i ∈ b.instrs) (hbranch : i.op.isBranch) {line : UInt32}
    (hline : i.sourceLine? = some line) (hmem : line ∈ lines) :
    ∃ index, (i.label, line, index) ∈ selectedBranches lines b ∧
      Instr.Decomposed ⟨target.file, line, index⟩ declared available i ops i' := by
  rcases h with ⟨hnot, -, -⟩ | ⟨line', index, hselected, hdecomposed⟩
  · refine absurd ?_ hnot
    rw [selectedBranches, map_label_numbered]
    exact List.mem_map_of_mem (f := (·.1))
      (mem_branchesOn.2 ⟨i, hi, hbranch, hline, hmem, rfl⟩)
  · obtain ⟨-, hline', -⟩ := of_mem_selectedBranches hnodup hi hselected
    rw [hline, Option.some.injEq] at hline'
    subst hline'
    exact ⟨index, hselected, hdecomposed⟩

theorem isStraight_of_mem_lineProbes {file : String} {added : List (UInt32 × Label)}
    {label : Label} {op : Operation} (h : op ∈ lineProbes file added label) :
    op.IsStraight ∧ op.isFieldRead = false := by
  obtain ⟨e, -, rfl⟩ := List.mem_map.1 h
  exact ⟨trivial, rfl⟩

end Product

/-- The slot of a branch on a requested line. -/
theorem ProductPhase.exists_slot_of_branch {plan : Plan} {target : MethodTarget}
    {w w' : Workpiece} {added : List (UInt32 × Label)} {b : Body} {y y' : Layout}
    (h : ProductPhase plan target w w' added b y y') (hconsistent : w.body.defect? = none)
    {i : Instr} (hi : i ∈ w.body.instrs) {e : Expr} {t : Label} (hop : i.op = .branch e t)
    {line : UInt32} (hline : i.sourceLine? = some line)
    (hmem : line ∈ Product.linesIn plan.settings plan.lines target w.body) :
    ∃ (k : Nat) (s : Slot) (index : UInt32), y.slots[k]? = some s ∧
      (i.label, line, index) ∈ Product.selectedBranches
        (Product.linesIn plan.settings plan.lines target w.body) w.body ∧
      ∃ (before : List Local) (script : Script),
        s.ops = Product.lineProbes target.file added i.label ++
          (script.ops ++ [Script.reachedOp ⟨target.file, line, index⟩]) ∧
        w.body.locals <+: before ∧
        TraceWeave.script ⟨target.file, line, index⟩ e before = .ok script ∧
        script.locals <+: b.locals ∧ s.instr = { i with op := .branch script.rest t } := by
  obtain ⟨k, hk⟩ := List.getElem?_of_mem hi
  obtain ⟨hlt, hget⟩ := List.getElem?_eq_some_iff.1 hk
  have hlt' : k < y.slots.length := h.slots.length_eq ▸ hlt
  have hslot := h.slots.get hlt hlt'
  rw [List.get_eq_getElem, List.get_eq_getElem, hget] at hslot
  obtain ⟨ops, hops, hbranches⟩ := hslot
  obtain ⟨index, hselected, condition, target', before, script, hop', hbefore, hscript, hlocals,
    rfl, hinstr⟩ := hbranches.decomposed (Body.labels_nodup_of_defect? hconsistent) hi
      (by rw [hop]; rfl) hline hmem
  rw [hop] at hop'
  cases hop'
  exact ⟨k, _, index, List.getElem?_eq_getElem hlt', hselected, before, script, hops, hbefore,
    hscript, hlocals, hinstr⟩

theorem Operation.IsPart.isFieldRead_eq {site : BranchSite} {op : Operation}
    (h : op.IsPart site) : op.isFieldRead = false := by
  rcases h with ⟨x, value, rfl⟩ | ⟨x, source, rfl⟩ | ⟨x, binary, y, rfl⟩ <;> rfl

namespace Plan

/-- In a body that the product phase has woven, a branch on a requested line stands at the end of a
block, and a run that comes to it from outside the block has passed through all of the block.
Wherever its old condition can be evaluated, every run through the block tells that condition, with
the values that its nodes have there, and then reports the branch. -/
theorem block_tells {plan : Plan} {target : MethodTarget} {w w' : Workpiece}
    {outcomes : List Outcome} (h : plan.applyAll target productWeavers w = .ok (outcomes, w'))
    (hconsistent : w.body.defect? = none) {i : Instr} (hi : i ∈ w.body.instrs) {e : Expr}
    {t : Label} (hop : i.op = .branch e t) {line : UInt32} (hline : i.sourceLine? = some line)
    (hskip : productSkip? plan.settings target = none)
    (hrequested : line ∈ (plan.lines.linesFor target.file).toList) (hneg : e.NegatesBooleans)
    (hnames : ∀ x ∈ w'.body.locals, x ∉ w.body.locals → x.name ∉ e.names) :
    ∃ index first stop rest t',
      (i.label, line, index) ∈ Product.selectedBranches
        (Product.linesIn plan.settings plan.lines target w.body) w.body ∧
      w'.body.Block first stop ∧ w'.body.instrs[stop]? = some { i with op := .branch rest t' } ∧
      (∀ limit call position frame s requests frame₁ s₁, position ≤ first ∨ stop < position →
        w'.body.Reaches limit call stop frame position s requests frame₁ s₁ →
        ∃ frame₀ s₀ before during,
          w'.body.Reaches limit call first frame position s before frame₀ s₀ ∧
          w'.body.Reaches limit call stop frame₀ first s₀ during frame₁ s₁ ∧
          requests = before ++ during) ∧
      ∀ (p : Program) (natives : Natives) (depth limit : Nat) (frame : Frame)
        (s s' : MachineState) (v : Value),
        e.eval (Setup.machineCalls p natives depth limit) frame s = .ok v s' →
        ∃ tree : ValueTree, tree.root = v ∧
          e.checkedTree (Setup.machineCalls p natives depth limit) frame s = .ok tree s' ∧
          (∃ bound, ∀ limit' ≥ bound, ∃ requests frame₁ s₁,
            w'.body.Reaches limit' (Setup.machineCalls p natives depth limit') stop frame first s
              requests frame₁ s₁) ∧
          ∀ limit' requests frame₁ s₁,
            w'.body.Reaches limit' (Setup.machineCalls p natives depth limit') stop frame first s
              requests frame₁ s₁ →
            BranchSite.Reports ⟨target.file, line, index⟩ e tree frame₁
              (requests.filter fun r => !r.isFieldAccess) := by
  obtain ⟨added, b, y, y', hphase⟩ := exists_productPhase h
  obtain ⟨k, slot, index, hs, hselected, before, script, hops, hbefore, hscript, hlocals, hinstr⟩ :=
    hphase.exists_slot_of_branch hconsistent hi hop hline
      (Product.mem_linesIn_of_sourceLine? hskip hrequested hi hline)
  have hstraight : ∀ op ∈ slot.ops, op.IsStraight ∧ op.isFieldRead = false := by
    intro op hmem
    rw [hops, List.mem_append, List.mem_append, List.mem_singleton] at hmem
    rcases hmem with hmem | hmem | rfl
    · exact Product.isStraight_of_mem_lineProbes hmem
    · have hpart := isPart_of_mem_script hscript op hmem
      exact ⟨hpart.isStraight, hpart.isFieldRead_eq⟩
    · exact ⟨trivial, rfl⟩
  obtain ⟨first, block, hat, hblock, hfilter, hclosed, hend⟩ :=
    hphase.exists_block hconsistent hs hstraight
  have hsettled : ∀ n ∈ e.names, Settled b.locals before n := by
    intro n hn hmem
    obtain ⟨x, hx, rfl⟩ := List.mem_map.1 hmem
    have hdeclared : x ∈ w.body.locals := by
      by_contra hnot
      exact hnames x (hphase.locals_eq ▸ hx) hnot hn
    exact (Declares.of_mem hdeclared).mono hbefore
  have hlines : block.filter (fun op => !op.isFieldRead) =
      ((added.filter fun e => e.2 = i.label).map (·.1)).map
        (fun n => .probe (.lineReached target.file n)) ++
        (script.ops ++ [Script.reachedOp ⟨target.file, line, index⟩]) := by
    rw [hfilter, hops, Product.lineProbes, List.map_map]
    rfl
  refine ⟨index, first, first + block.length, script.rest, y'.destination (y.destination t),
    hselected, hclosed, ?_, ?_, fun p natives depth limit frame s s' v heval => ?_⟩
  · rw [hend, hinstr]
    rfl
  · intro limit call position frame s requests frame₁ s₁ houtside hreach
    exact hclosed.exists_reaches_first hreach houtside
  · obtain ⟨tree, hroot, htree⟩ := Expr.exists_checkedTree_of_eval heval
    exact ⟨tree, hroot, htree, Body.block_reports (Setup.machineCalls_follow p natives depth) hneg
      hscript hsettled hlocals hat hblock hlines htree⟩

/-- A condition over a sum. -/
def sumAbove : Expr :=
  .binary .gt (.binary .add (.var ⟨"a", .int⟩) (.value (.int 1))) (.var ⟨"b", .int⟩)

/-- A method that branches on it. -/
def comparing : Method :=
  { name := "above", params := [⟨"a", .int⟩, ⟨"b", .int⟩], returnType := .void
    body := { instrs := [⟨⟨0⟩, 5, .branch sumAbove ⟨1⟩⟩, ⟨⟨1⟩, 6, .ret none⟩] } }

/-- A frame of the method. -/
def comparingFrame : Frame :=
  ⟨"Foo.above(int,int)", .ofList [("a", .int 2), ("b", .int 2)]⟩

/-- The method is woven and gets two temporaries. -/
theorem comparing_locals : ((requestingFive.applyAll (.of (lone comparing) comparing)
    productWeavers ⟨comparing.body, ⟨[], []⟩⟩).toOption.map fun r => r.2.body.locals) =
      some [⟨"__autogen_0", .int⟩, ⟨"__autogen_1", .int⟩] := by
  decide +kernel

/-- In that frame, the block of the branch can be run through, and reports the branch whenever it
is. -/
theorem comparing_tells : ∃ outcomes w',
    requestingFive.applyAll (.of (lone comparing) comparing) productWeavers
        ⟨comparing.body, ⟨[], []⟩⟩ = .ok (outcomes, w') ∧
      ∃ index first stop, ∃ tree : ValueTree, w'.body.Block first stop ∧ tree.root = .bool true ∧
        (∃ bound, ∀ limit ≥ bound, ∃ requests frame s, w'.body.Reaches limit
          (Setup.machineCalls ⟨[]⟩ .none 0 limit) stop comparingFrame first {} requests frame s) ∧
        ∀ limit requests frame s, w'.body.Reaches limit (Setup.machineCalls ⟨[]⟩ .none 0 limit) stop
            comparingFrame first {} requests frame s →
          BranchSite.Reports ⟨"Foo.java", 5, index⟩ sumAbove tree frame
            (requests.filter fun r => !r.isFieldAccess) := by
  have hlocals := comparing_locals
  cases h : requestingFive.applyAll (.of (lone comparing) comparing) productWeavers
      ⟨comparing.body, ⟨[], []⟩⟩ with
  | error f =>
    rw [h] at hlocals
    cases hlocals
  | ok result =>
    obtain ⟨outcomes, w'⟩ := result
    rw [h] at hlocals
    have hlocals : w'.body.locals = [⟨"__autogen_0", .int⟩, ⟨"__autogen_1", .int⟩] :=
      Option.some.inj hlocals
    have heval : sumAbove.eval (Setup.machineCalls ⟨[]⟩ .none 0 0) comparingFrame {} =
        .ok (.bool true) {} := rfl
    obtain ⟨index, first, stop, rest, t', -, hblock, -, -, hruns⟩ :=
      block_tells h (by decide) (List.mem_cons_self) rfl rfl rfl (by decide)
        ⟨⟨trivial, trivial⟩, trivial⟩ (by rw [hlocals]; decide)
    obtain ⟨tree, hroot, -, hreach, hreports⟩ := hruns ⟨[]⟩ .none 0 0 comparingFrame {} {} _ heval
    exact ⟨outcomes, w', rfl, index, first, stop, tree, hblock, hroot, hreach, hreports⟩

end Plan

end TraceWeave
