import TraceWeave.Proofs.Weave.Told

/-!
# Scripts tell what they compute

Running a script follows the evaluation of its expression: `Expr.operand_follows` says so for an
operand, whose value is in a variable afterwards, and `Expr.script_follows` for a condition, what is
left of which is still to be evaluated.
-/

namespace TraceWeave

/-! ## Running the parts of scripts -/

section

variable {calls calls' : Nat → Call} {site : BranchSite}

/-- A probe that has something to ask does not change the frame. -/
theorem runLine_probe_follows {p : Probe} {frame : Frame} {r : RecorderRequest}
    (h : p.request? frame = some r) :
    Follows (fun (_ : Unit) q => q = (frame, [r])) (fun _ => pure ())
      (fun limit => runLine limit (calls' limit) [.probe p] frame) := by
  have hfire : p.fire frame = request r := by simp [Probe.fire, h]
  have hrequest : Follows (fun (_ : Unit) (_ : Unit) => True) (fun _ => pure ())
      (fun _ => request r) := .modify_right fun s => ⟨rfl, rfl, rfl, rfl⟩
  simp only [runLine, Operation.line, hfire, bind_assoc, pure_bind]
  refine (Follows.countStep_right frame).bind_right fun _ _ => ?_
  refine hrequest.bind_right fun _ _ => ?_
  exact .pure (by simp [Operation.requests, h])

/-- A capture reports what its variable holds. -/
theorem runLine_capture_follows {frame : Frame} {x : Local} {source : Source} {v : Value}
    (h : frame.locals.get? x.name = some v) :
    Follows (fun (_ : Unit) q => q = (frame, [.event (site.varEvent x source v)])) (fun _ => pure ())
      (fun limit => runLine limit (calls' limit) [Script.captureOp site x source] frame) :=
  runLine_probe_follows (by simp [Probe.request?, BranchSite.varEvent, h])

/-- A capture of a variable that holds nothing fails. -/
theorem runLine_capture_fails {γ : Type} {R : γ → Frame × List RecorderRequest → Prop}
    {frame frame' : Frame} {x : Local} {source : Source} {cause : FaultCause}
    (h : frame'.locals.get? x.name = none) :
    Follows R (fun _ => frame.fail cause)
      (fun limit => runLine limit (calls' limit) [Script.captureOp site x source] frame') := by
  have hfire : (Probe.capture site.file site.line x source).fire frame' =
      frame'.fail (.unassignedCapture x.name) := by
    simp [Probe.fire, Probe.request?, h]
  simp only [runLine, Script.captureOp, Operation.line, hfire]
  exact (Follows.countStep_right frame').bind_right fun _ _ => .fail (by simp)

/-- A value is put into a fresh temporary and reported. -/
theorem held_follows {α β : Type} {R : α → Frame × List RecorderRequest → Prop}
    {T : β → Frame × List RecorderRequest → Prop} {x : Nat → MachineM α}
    {f : Nat → α → MachineM β} {ops : List Operation} {value : Expr} {source : Source}
    {locals : List Local} {frame : Frame} {o : Operand}
    (ho : o = Script.held site ops value source locals)
    (hx : Follows R x fun limit => runLine limit (calls' limit) ops frame)
    (hf : ∀ a p, R a p → Follows
      (fun b v => T b (p.1.assign o.var.name v, p.2 ++ [.event (site.varEvent o.var source v)]))
      (fun limit => f limit a) (fun limit => value.eval (calls' limit) p.1)) :
    Follows T (fun limit => x limit >>= f limit)
      (fun limit => runLine limit (calls' limit) o.ops frame) := by
  have hops : o.ops = ops ++ [.assign (.var o.var) value, Script.captureOp site o.var source] := by
    rw [ho]
    rfl
  have hline : ∀ (limit : Nat) (g : Frame),
      runLine limit (calls' limit)
          [.assign (.var o.var) value, Script.captureOp site o.var source] g =
        countStep limit g >>= fun _ => value.eval (calls' limit) g >>= fun v =>
          runLine limit (calls' limit) [Script.captureOp site o.var source]
            (g.assign o.var.name v) := by
    intro limit g
    simp [runLine, Operation.line, Operation.requests]
  simp only [hops, runLine_append, hline, bind_assoc]
  refine hx.bind fun a p hR => ?_
  refine (Follows.countStep_right p.1).bind_right fun _ _ => ?_
  have hvalue := (hf a p hR).bind (S := T) (f := fun _ b => pure b) (g := fun limit v =>
    runLine limit (calls' limit) [Script.captureOp site o.var source]
      (p.1.assign o.var.name v) >>= fun q => pure (q.1, p.2 ++ q.2)) fun b v hT => by
    have hholds : (p.1.assign o.var.name v).locals.get? o.var.name = some v := by
      simp [Frame.get?_assign]
    refine (runLine_capture_follows hholds).bind_right fun q hq => ?_
    subst hq
    exact .pure hT
  simpa only [bind_pure] using hvalue

end

/-! ## Running scripts -/

/-- The comparison with zero is the logical negation. -/
theorem Value.binary_eq_zero (b : Bool) :
    Value.binary .eq (.bool b) (.zero .boolean) = .ok (.bool !b) := by
  cases b <;> simp [binary, relational, number?, zero, Except.map]

/-- The tree of a unary node from that of its operand. -/
def ValueTree.over (frame : Frame) (op : UnaryOp) (t : ValueTree) : MachineM ValueTree :=
  match op, t.root with
  | .not, .bool b => return .unary (.bool !b) t
  | .not, _ => frame.fail (.stepLimit 0)
  | op, v => do
    let v ← frame.operator (Value.unary op v)
    return .unary v t

theorem Expr.checkedTree_unary (call : Call) (frame : Frame) (op : UnaryOp) (e : Expr) :
    (Expr.unary op e).checkedTree call frame =
      e.checkedTree call frame >>= fun t => t.over frame op := by
  cases op with
  | not =>
    rw [checkedTree]
    refine bind_congr fun t => ?_
    unfold ValueTree.over
    cases t.root <;> rfl
  | _ => rfl

/-- The trees of the operands of a binary node. -/
def Expr.checkedTrees (call : Call) (frame : Frame) (l r : Expr) :
    MachineM (ValueTree × ValueTree) := do
  let t ← l.checkedTree call frame
  let u ← r.checkedTree call frame
  return (t, u)

theorem Expr.checkedTree_binary (call : Call) (frame : Frame) (op : BinaryOp) (l r : Expr) :
    (Expr.binary op l r).checkedTree call frame =
      checkedTrees call frame l r >>= fun t =>
        frame.operator (Value.binary op t.1.root t.2.root) >>= fun v =>
          pure (.binary v t.1 t.2) := by
  simp [checkedTree, checkedTrees]

section

variable {calls calls' : Nat → Call} {site : BranchSite} {final : List Local}
  {frame frame' : Frame}

/-- The value of a unary node is computed from the variable that holds the operand. -/
theorem Expr.unaryOver_follows {op : UnaryOp} {e : Expr} {t : ValueTree} {x : Local}
    (hneg : (Expr.unary op e).NegatesBooleans) (hx : frame'.locals.get? x.name = some t.root)
    (hty : x.ty = e.ty) :
    Follows (fun u v => u = .unary v t) (fun _ => t.over frame op)
      (fun limit => (Decomposition.unaryOver op x).eval (calls' limit) frame') := by
  have hoperator : Follows (fun u v => u = ValueTree.unary v t)
      (fun _ => frame.operator (Value.unary op t.root) >>= fun v => pure (.unary v t))
      (fun limit => (Expr.unary op (.var x)).eval (calls' limit) frame') := by
    simp only [eval, hx, pure_bind]
    rw [← bind_pure (frame'.operator _)]
    exact (Follows.operator frame frame').bind_eq fun v => .pure rfl
  cases op with
  | not =>
    have hzero : x.ty = .boolean := hty.trans hneg.1
    simp only [Decomposition.unaryOver, eval, hx, pure_bind, hzero]
    cases hroot : t.root with
    | bool b =>
      simp only [ValueTree.over, hroot, Value.binary_eq_zero, Frame.operator]
      exact .pure rfl
    | _ =>
      simp only [ValueTree.over, hroot]
      exact .of_stop frame 0 _
  | neg => exact hoperator
  | bitNot => exact hoperator

/-- The value of a binary node is computed from the variables that hold the operands. -/
theorem Expr.binaryOver_follows {op : BinaryOp} {v w : Value} {x y : Local}
    (hx : frame'.locals.get? x.name = some v) (hy : frame'.locals.get? y.name = some w) :
    Follows Eq (fun _ => frame.operator (Value.binary op v w))
      (fun limit => (Expr.binary op (.var x) (.var y)).eval (calls' limit) frame') := by
  simp only [eval, hx, hy, pure_bind]
  exact .operator frame frame'

/-- A binary node is told after its operands. -/
theorem Expr.ofBinary_follows {op : BinaryOp} {l r : Expr} {x y : Operand} {locals : List Local}
    (hx : Follows (x.Recounts site final locals l frame')
      (fun limit => l.checkedTree (calls limit) frame)
      (fun limit => runLine limit (calls' limit) x.ops frame'))
    (hy : ∀ frame₁, Frame.Keeps final locals frame' frame₁ →
      Follows (y.Recounts site final x.locals r frame₁)
        (fun limit => r.checkedTree (calls limit) frame)
        (fun limit => runLine limit (calls' limit) y.ops frame₁))
    (hlocals : locals <+: x.locals) (hlocals' : x.locals <+: y.locals) :
    Follows (Operand.RecountsBoth site final locals op l r x y frame')
      (fun limit => checkedTrees (calls limit) frame l r)
      (fun limit => runLine limit (calls' limit) (Script.ofBinary site op x y).ops frame') := by
  simp only [checkedTrees, Script.ofBinary, runLine_append, bind_assoc, pure_bind]
  refine hx.bind fun t p hp => ?_
  refine (hy p.1 hp.keeps).bind fun u q hq => ?_
  obtain ⟨⟨events, hevents, hl⟩, hkeeps⟩ := hp
  obtain ⟨⟨events', hevents', hr⟩, hkeeps'⟩ := hq
  refine (runLine_probe_follows
    (r := .event (site.conditionEvent x.var op y.var)) rfl).bind_right fun _ h => ?_
  subst h
  refine .pure ⟨⟨events, events', ?_, hl.mono fun z w hz => hz.keeps hlocals' hkeeps', hr⟩,
    hkeeps.trans hlocals hkeeps'⟩
  rw [hevents, hevents']
  simp

/-- An operand without parts is computed into a temporary. -/
theorem Expr.leaf_follows {e value : Expr} {source : Source} {locals : List Local} {o : Operand}
    (ho : o = Script.held site [] value source locals) (hfinal : o.locals <+: final)
    (hvalue : Follows
      (fun t v => Told site ((frame'.assign o.var.name v).Holds final o.locals) e t o.var
        [site.varEvent o.var source v])
      (fun limit => e.checkedTree (calls limit) frame)
      (fun limit => value.eval (calls' limit) frame')) :
    Follows (o.Recounts site final locals e frame') (fun limit => e.checkedTree (calls limit) frame)
      (fun limit => runLine limit (calls' limit) o.ops frame') := by
  have hnil : Follows (fun (_ : Unit) p => p = (frame', ([] : List RecorderRequest)))
      (fun _ => pure ()) (fun limit => runLine limit (calls' limit) [] frame') := .pure rfl
  have hheld := held_follows (T := o.Recounts site final locals e frame')
    (f := fun limit _ => e.checkedTree (calls limit) frame) ho hnil fun _ p hp => ?_
  · simpa only [pure_bind] using hheld
  · subst hp
    exact hvalue.mono fun t v htold => .of_leaf ho hfinal htold

/-- A variable is its own operand. -/
theorem Expr.capture_follows {x : Local} {locals : List Local} (hx : Settled final locals x.name)
    (hframe : frame'.locals.get? x.name = frame.locals.get? x.name) :
    Follows (Operand.Recounts site final locals (.var x)
        ⟨[Script.captureOp site x .variable], x, locals⟩ frame')
      (fun limit => (Expr.var x).checkedTree (calls limit) frame)
      (fun limit => runLine limit (calls' limit) [Script.captureOp site x .variable] frame') := by
  cases hv : frame.locals.get? x.name with
  | some v =>
    rw [hv] at hframe
    have htree : ∀ limit, (Expr.var x).checkedTree (calls limit) frame = pure (.leaf v) := by
      intro limit
      simp [checkedTree, eval, hv]
    simp only [htree]
    refine (runLine_capture_follows hframe).pure_left fun p hp => ?_
    subst hp
    exact ⟨⟨[site.varEvent x .variable v], rfl, .var ⟨hframe, hx⟩⟩, Frame.Keeps.refl frame'⟩
  | none =>
    have htree : ∀ limit, (Expr.var x).checkedTree (calls limit) frame =
        frame.fail (.unassigned x.name) := by
      intro limit
      simp only [checkedTree, eval, hv]
      rfl
    simp only [htree]
    exact runLine_capture_fails (hframe.trans hv)

variable (hcalls : CallsFollow calls calls')

include hcalls

/-- Running the script of an operand computes the operand and tells it. -/
theorem Expr.operand_follows (e : Expr) (hneg : e.NegatesBooleans) {locals : List Local}
    {s : Script} (hs : script site e locals = .ok s)
    (hnames : ∀ n ∈ e.names, Settled final locals n)
    (hfinal : (s.operand site).locals <+: final) (hframe : Frame.AgreeOn e.names frame frame') :
    Follows ((s.operand site).Recounts site final locals e frame')
      (fun limit => e.checkedTree (calls limit) frame)
      (fun limit => runLine limit (calls' limit) (s.operand site).ops frame') := by
  induction e generalizing locals s frame' with
  | value v =>
    cases hs
    exact leaf_follows rfl hfinal (.pure (.value (Operand.holds_held rfl _ _) rfl))
  | var x =>
    cases hs
    exact capture_follows (hnames _ (by simp [names])) (hframe _ (by simp [names]))
  | call callee args ih =>
    cases hs
    refine leaf_follows rfl hfinal ?_
    refine ((Expr.call callee args).eval_follows hcalls hframe).map_left fun v =>
      .call (Operand.holds_held rfl _ _) rfl
  | unary op e ih =>
    obtain ⟨t, ht, rfl⟩ := script_unary_eq_ok hs
    simp only [checkedTree_unary]
    refine held_follows rfl (ih hneg.of_unary ht hnames ((Operand.locals_held rfl).trans hfinal)
      hframe) fun u p hp => ?_
    obtain ⟨events, -, htold⟩ := hp.told
    refine (unaryOver_follows hneg htold.holds_root.1 htold.ty_eq).mono fun b v hb => ?_
    subst hb
    exact hp.unary (script_operand_locals ht) rfl hfinal v
  | binary op l r ihl ihr =>
    obtain ⟨t, u, -, ht, hu, rfl⟩ := script_binary_eq_ok hs
    rw [names] at hframe hnames
    have hlocals := script_operand_locals ht
    have hlocals' := script_operand_locals hu
    have hfinal' : (u.operand site).locals <+: final := (Operand.locals_held rfl).trans hfinal
    simp only [checkedTree_binary]
    refine held_follows rfl (ofBinary_follows
      (ihl hneg.1 ht (fun n hn => hnames n (by simp [hn])) (hlocals'.trans hfinal') hframe.left)
      (fun frame₁ hkeeps => ihr hneg.2 hu (fun n hn => (hnames n (by simp [hn])).mono hlocals)
        hfinal' (hkeeps.agreeOn hframe.right fun n hn => hnames n (by simp [hn])))
      hlocals hlocals') fun v p hp => ?_
    obtain ⟨events, events', -, hl, hr⟩ := hp.told
    exact (binaryOver_follows hl.holds_root.1 hr.holds_root.1).map_left fun w =>
      hp.held (hlocals.trans hlocals') rfl hfinal w
  | field f => cases hs
  | unmapped description ty => cases hs

/-- Running the script of a condition and evaluating what is left of it, which counts a step of its
own, computes the condition and tells it. -/
theorem Expr.script_follows (e : Expr) (hneg : e.NegatesBooleans) {locals : List Local}
    {s : Script} (hs : script site e locals = .ok s)
    (hnames : ∀ n ∈ e.names, Settled final locals n)
    (hfinal : s.locals <+: final) (hframe : Frame.AgreeOn e.names frame frame') :
    Follows (s.Recounts site final locals e frame')
      (fun limit => e.checkedTree (calls limit) frame)
      (fun limit => runLine limit (calls' limit) (s.ops ++ [Script.reachedOp site]) frame' >>=
        fun p => countStep limit p.1 >>= fun _ => s.rest.eval (calls' limit) p.1 >>=
          fun v => pure (p, v)) := by
  have hreached : ∀ g : Frame, Follows (fun (_ : Unit) q => q = (g, [.event site.reachedEvent]))
      (fun _ => pure ()) (fun limit => runLine limit (calls' limit) [Script.reachedOp site] g) :=
    fun g => runLine_probe_follows rfl
  simp only [runLine_append, bind_assoc, pure_bind]
  rcases script_rest_cases hs with ⟨op, l, r, rfl⟩ | ⟨hother, x, hrest⟩
  · obtain ⟨t, u, -, ht, hu, rfl⟩ := script_binary_eq_ok hs
    rw [names] at hframe hnames
    have hlocals := script_operand_locals ht
    have hlocals' := script_operand_locals hu
    simp only [checkedTree_binary]
    refine (ofBinary_follows
      (l.operand_follows hcalls hneg.1 ht (fun n hn => hnames n (by simp [hn]))
        (hlocals'.trans hfinal) hframe.left)
      (fun frame₁ hkeeps => r.operand_follows hcalls hneg.2 hu
        (fun n hn => (hnames n (by simp [hn])).mono hlocals) hfinal
        (hkeeps.agreeOn hframe.right fun n hn => hnames n (by simp [hn])))
      hlocals hlocals').bind fun v p hp => ?_
    obtain ⟨⟨events, events', hevents, hl, hr⟩, hkeeps⟩ := hp
    refine (hreached p.1).bind_right fun q hq => ?_
    subst hq
    refine (Follows.countStep_right p.1).bind_right fun _ _ => ?_
    refine (binaryOver_follows hl.holds_root.1 hr.holds_root.1).bind_eq fun w => ?_
    exact .pure ⟨rfl, ⟨_, by rw [hevents], .binary hl hr⟩, hkeeps⟩
  · have hoperand : s.operand site = ⟨s.ops, x, s.locals⟩ := by rw [Script.operand, hrest]
    have hrun := e.operand_follows hcalls hneg hs hnames (by rw [hoperand]; exact hfinal) hframe
    rw [hoperand] at hrun
    rw [← funext fun limit => bind_pure (e.checkedTree (calls limit) frame)]
    refine hrun.bind fun t p hp => ?_
    obtain ⟨⟨events, hevents, htold⟩, hkeeps⟩ := hp
    refine (hreached p.1).bind_right fun q hq => ?_
    subst hq
    refine (Follows.countStep_right p.1).bind_right fun _ _ => ?_
    simp only [hrest, eval, htold.holds_root.1, pure_bind]
    exact .pure ⟨rfl, ⟨_, by rw [hevents], .operand hother htold⟩, hkeeps⟩

end

end TraceWeave
