import TraceWeave.Proofs.Expr.Typing
import TraceWeave.Proofs.Machine.HostCalls
import TraceWeave.Proofs.Machine.Reaching
import TraceWeave.Proofs.Weave.Divisible
import TraceWeave.Proofs.Weave.Telling

/-!
# What becomes of negations

A decomposition compares the operand of a logical negation with the zero of its type.  So what it
computes is not the expression itself but `Expr.zeroed`, in which every such negation is that
comparison (`Expr.script_computes`).

An expression with a value has negations of truth values only, and then the comparison is the
negation (`Expr.eval_zeroed`).  But a negation of anything else has no value, while the comparison
may well have one.  `Decomposition.yields_iff` says both: what is yielded after a decomposition is
the value of the expression with its negations replaced, and that is the value of the expression
itself exactly if all its negations are of truth values, or nothing is yielded.
-/

namespace TraceWeave

/-! ## Negations as comparisons -/

/-- The value of a unary node over an operand of a type, a logical negation taken as a comparison
with the zero of the type. -/
def Value.unaryByZero (op : UnaryOp) (t : Ty) (v : Value) : Except OperatorError Value :=
  match op with
  | .not => binary .eq v (.zero t)
  | op => unary op v

namespace Expr

/-- The expression with every logical negation that is not in the arguments of a call replaced by a
comparison with the zero of the type of its operand. -/
def zeroed : Expr → Expr
  | .unary .not e => .binary .eq e.zeroed (.value (.zero e.ty))
  | .unary op e => .unary op e.zeroed
  | .binary op l r => .binary op l.zeroed r.zeroed
  | e => e

theorem callees_zeroed (e : Expr) : e.zeroed.callees = e.callees := by
  induction e with
  | unary op e ih => cases op <;> simp [zeroed, callees, ih]
  | binary op l r ihl ihr => simp [zeroed, callees, ihl, ihr]
  | _ => rfl

theorem eval_zeroed_unary (call : Call) (frame : Frame) (op : UnaryOp) (e : Expr) :
    (unary op e).zeroed.eval call frame =
      e.zeroed.eval call frame >>= fun v => frame.operator (Value.unaryByZero op e.ty v) := by
  cases op <;> simp [zeroed, eval, Value.unaryByZero]

/-- A unary node over a variable compares it with the zero of its own type. -/
theorem eval_unaryOver {frame : Frame} {x : Local} {v : Value}
    (hx : frame.locals.get? x.name = some v) (call : Call) (op : UnaryOp) :
    (Decomposition.unaryOver op x).eval call frame =
      frame.operator (Value.unaryByZero op x.ty v) := by
  cases op <;> simp [Decomposition.unaryOver, eval, hx, Value.unaryByZero]

/-! ## Truth values -/

section

variable {call : Call} {frame : Frame} {e : Expr}

theorem vars_subset_of_mem_parts {part : Expr} (h : part ∈ e.parts) :
    part.vars ⊆ e.vars ∧ part.callees ⊆ e.callees := by
  induction e with
  | unary op e ih =>
    rcases List.mem_cons.1 h with rfl | h
    · exact ⟨List.Subset.refl _, List.Subset.refl _⟩
    · exact ih h
  | binary op l r ihl ihr =>
    rcases List.mem_cons.1 h with rfl | h
    · exact ⟨List.Subset.refl _, List.Subset.refl _⟩
    · rcases List.mem_append.1 h with h | h
      · exact ⟨List.Subset.trans (ihl h).1 (List.subset_append_left _ _),
          List.Subset.trans (ihl h).2 (List.subset_append_left _ _)⟩
      · exact ⟨List.Subset.trans (ihr h).1 (List.subset_append_right _ _),
          List.Subset.trans (ihr h).2 (List.subset_append_right _ _)⟩
  | _ =>
    rw [List.mem_singleton.1 h]
    exact ⟨List.Subset.refl _, List.Subset.refl _⟩

/-- The variables of an expression that are not in the arguments of a call hold values of their
types, and the calls that are not in the arguments of another return values of theirs. -/
structure PartsConform (call : Call) (frame : Frame) (e : Expr) : Prop where
  vars : ∀ x, .var x ∈ e.parts → ∀ v, frame.locals.get? x.name = some v → v.Conforms x.ty
  calls : ∀ callee args, .call callee args ∈ e.parts →
    ∀ values s v t, call callee values s = .ok (some v) t → v.Conforms callee.returnType

theorem PartsConform.of_unary {op : UnaryOp} (h : PartsConform call frame (unary op e)) :
    PartsConform call frame e :=
  ⟨fun x hx => h.vars x (List.mem_cons_of_mem _ hx),
    fun c args hc => h.calls c args (List.mem_cons_of_mem _ hc)⟩

theorem PartsConform.of_binary {op : BinaryOp} {l r : Expr}
    (h : PartsConform call frame (binary op l r)) :
    PartsConform call frame l ∧ PartsConform call frame r :=
  ⟨⟨fun x hx => h.vars x (List.mem_cons_of_mem _ (List.mem_append_left _ hx)),
      fun c args hc => h.calls c args (List.mem_cons_of_mem _ (List.mem_append_left _ hc))⟩,
    ⟨fun x hx => h.vars x (List.mem_cons_of_mem _ (List.mem_append_right _ hx)),
      fun c args hc => h.calls c args (List.mem_cons_of_mem _ (List.mem_append_right _ hc))⟩⟩

/-- A divisible expression has a value only if its negations are of truth values. -/
theorem negatesBooleans_of_eval (he : e.Divisible) (hparts : PartsConform call frame e)
    {s t : MachineState} {v : Value} (h : e.eval call frame s = .ok v t) :
    e.NegatesBooleans ∧ v.Conforms e.ty := by
  induction e generalizing s t v with
  | value c =>
    cases h
    exact ⟨trivial, c.conforms_ty⟩
  | var x =>
    rw [eval] at h
    cases hx : frame.locals.get? x.name with
    | none =>
      rw [hx] at h
      cases h
    | some w =>
      rw [hx] at h
      cases h
      exact ⟨trivial, hparts.vars x (by simp [parts]) v hx⟩
  | unary op e ih =>
    rw [eval] at h
    obtain ⟨w, u, hw, hop⟩ := bind_eq_ok.1 h
    obtain ⟨hneg, hconforms⟩ := ih (divisible_unary_iff.1 he) hparts.of_unary hw
    obtain ⟨haccepts, hv⟩ := Value.unary_conforms hconforms (Frame.operator_eq_ok.1 hop).1
    refine ⟨?_, by rwa [ty_unary]⟩
    cases op with
    | not => exact ⟨haccepts, hneg⟩
    | _ => exact hneg
  | binary op l r ihl ihr =>
    obtain ⟨-, hl, hr⟩ := divisible_binary_iff.1 he
    rw [eval] at h
    obtain ⟨x, u, hx, h⟩ := bind_eq_ok.1 h
    obtain ⟨y, w, hy, hop⟩ := bind_eq_ok.1 h
    obtain ⟨hnegl, hxty⟩ := ihl hl hparts.of_binary.1 hx
    obtain ⟨hnegr, hyty⟩ := ihr hr hparts.of_binary.2 hy
    obtain ⟨-, hv⟩ := Value.binary_conforms hxty hyty (Frame.operator_eq_ok.1 hop).1
    exact ⟨⟨hnegl, hnegr⟩, by rwa [ty_binary]⟩
  | call callee args ih =>
    rw [eval] at h
    obtain ⟨values, u, hargs, h⟩ := bind_eq_ok.1 h
    obtain ⟨result, w, hcall, h⟩ := bind_eq_ok.1 h
    cases result with
    | none => cases h
    | some x =>
      cases h
      exact ⟨trivial, hparts.calls callee args (by simp [parts]) values u v _ hcall⟩
  | field f => exact absurd (he (.field f) (by simp [parts])) (by simp [isIndivisible])
  | unmapped description ty =>
    exact absurd (he (.unmapped description ty) (by simp [parts])) (by simp [isIndivisible])

/-- Where negations are of truth values, comparisons with zero are negations. -/
theorem eval_zeroed (he : e.Divisible) (hparts : PartsConform call frame e)
    (hneg : e.NegatesBooleans) : e.zeroed.eval call frame = e.eval call frame := by
  induction e with
  | unary op e ih =>
    have hoperand := ih (divisible_unary_iff.1 he) hparts.of_unary hneg.of_unary
    rw [eval_zeroed_unary, eval, hoperand]
    cases op with
    | not =>
      funext s
      cases hv : e.eval call frame s with
      | error f t => rw [bind_of_error _ hv, bind_of_error _ hv]
      | ok v t =>
        have hconforms :=
          (negatesBooleans_of_eval (divisible_unary_iff.1 he) hparts.of_unary hv).2
        rw [hneg.1] at hconforms
        cases hconforms with
        | bool b =>
          rw [bind_of_ok _ hv, bind_of_ok _ hv, hneg.1, Value.unaryByZero, Value.binary_eq_zero]
          rfl
    | _ => rfl
  | binary op l r ihl ihr =>
    obtain ⟨-, hl, hr⟩ := divisible_binary_iff.1 he
    rw [zeroed, eval, eval, ihl hl hparts.of_binary.1 hneg.1, ihr hr hparts.of_binary.2 hneg.2]
  | _ => rfl

end

end Expr

/-! ## Running scripts -/

/-- What running an operand leaves: its variable holds the value, and no settled name was assigned
to. -/
structure Operand.Computes (final locals : List Local) (o : Operand) (frame : Frame) (v : Value)
    (p : Frame × List RecorderRequest) : Prop where
  holds : p.1.Holds final o.locals o.var v
  keeps : Frame.Keeps final locals frame p.1

section

variable {calls calls' : Nat → Call} {site : BranchSite} {final locals : List Local}
  {frame frame' : Frame}

/-- A value is computed into a fresh temporary. -/
theorem Operand.held_computes {α : Type} {R : α → Frame × List RecorderRequest → Prop}
    {x : Nat → MachineM α} {f : Nat → α → MachineM Value} {ops : List Operation} {value : Expr}
    {source : Source} {locals₁ : List Local} {o : Operand}
    (ho : o = Script.held site ops value source locals₁) (hfinal : o.locals <+: final)
    (hlocals : locals <+: locals₁)
    (hx : Follows R x fun limit => runLine limit (calls' limit) ops frame')
    (hkeeps : ∀ a p, R a p → Frame.Keeps final locals frame' p.1)
    (hf : ∀ a p, R a p → Follows Eq (fun limit => f limit a)
      (fun limit => value.eval (calls' limit) p.1)) :
    Follows (o.Computes final locals frame') (fun limit => x limit >>= f limit)
      (fun limit => runLine limit (calls' limit) o.ops frame') := by
  refine held_follows ho hx fun a p hR => (hf a p hR).mono fun v w hvw => ?_
  subst hvw
  exact ⟨holds_held ho p.1 v, (hkeeps a p hR).trans hlocals (keeps_held ho hfinal p.1 v)⟩

/-- A value without parts is computed into a fresh temporary. -/
theorem Operand.leaf_computes {x : Nat → MachineM Value} {value : Expr} {source : Source}
    {o : Operand} (ho : o = Script.held site [] value source locals) (hfinal : o.locals <+: final)
    (hx : Follows Eq x fun limit => value.eval (calls' limit) frame') :
    Follows (o.Computes final locals frame') x
      (fun limit => runLine limit (calls' limit) o.ops frame') := by
  have hnil : Follows (fun (_ : Unit) p => p = (frame', ([] : List RecorderRequest)))
      (fun _ => pure ()) (fun limit => runLine limit (calls' limit) [] frame') := .pure rfl
  have hheld := held_computes (f := fun limit _ => x limit) ho hfinal List.prefix_rfl hnil
    (fun _ p hp => hp ▸ Frame.Keeps.refl frame') (fun _ p hp => by subst hp; exact hx)
  simpa only [pure_bind] using hheld

/-- A variable is captured where it is. -/
theorem Operand.var_computes {x : Local} (hx : Settled final locals x.name)
    (hframe : frame'.locals.get? x.name = frame.locals.get? x.name) :
    Follows (Operand.Computes final locals ⟨[Script.captureOp site x .variable], x, locals⟩ frame')
      (fun limit => (Expr.var x).eval (calls limit) frame)
      (fun limit => runLine limit (calls' limit) [Script.captureOp site x .variable] frame') := by
  simp only [Expr.eval]
  cases hv : frame.locals.get? x.name with
  | some v =>
    rw [hv] at hframe
    refine (runLine_capture_follows hframe).pure_left fun p hp => ?_
    subst hp
    exact ⟨⟨hframe, hx⟩, Frame.Keeps.refl frame'⟩
  | none => exact runLine_capture_fails (hframe.trans hv)

/-- The values of the operands of a binary node. -/
def Expr.evalBoth (call : Call) (frame : Frame) (l r : Expr) : MachineM (Value × Value) := do
  let v ← l.eval call frame
  let w ← r.eval call frame
  return (v, w)

theorem Expr.eval_binary (call : Call) (frame : Frame) (op : BinaryOp) (l r : Expr) :
    (binary op l r).eval call frame =
      evalBoth call frame l r >>= fun p => frame.operator (Value.binary op p.1 p.2) := by
  simp [eval, evalBoth]

/-- What running a binary node leaves, before its value is computed: both variables hold the values
of the operands, and no settled name was assigned to. -/
structure Operand.ComputesBoth (final locals : List Local) (x y : Operand) (frame : Frame)
    (v : Value × Value) (p : Frame × List RecorderRequest) : Prop where
  left : p.1.locals.get? x.var.name = some v.1
  right : p.1.locals.get? y.var.name = some v.2
  keeps : Frame.Keeps final locals frame p.1

theorem Operand.both_compute {op : BinaryOp} {l r : Expr} {x y : Operand}
    (hx : Follows (x.Computes final locals frame') (fun limit => l.eval (calls limit) frame)
      (fun limit => runLine limit (calls' limit) x.ops frame'))
    (hy : ∀ frame₁, Frame.Keeps final locals frame' frame₁ →
      Follows (y.Computes final x.locals frame₁) (fun limit => r.eval (calls limit) frame)
        (fun limit => runLine limit (calls' limit) y.ops frame₁))
    (hlocals : locals <+: x.locals) :
    Follows (Operand.ComputesBoth final locals x y frame')
      (fun limit => Expr.evalBoth (calls limit) frame l r)
      (fun limit => runLine limit (calls' limit) (Script.ofBinary site op x y).ops frame') := by
  simp only [Expr.evalBoth, Script.ofBinary, runLine_append, bind_assoc]
  refine hx.bind fun v p hp => (hy p.1 hp.keeps).bind fun w q hq => ?_
  refine (runLine_probe_follows
    (r := .event (site.conditionEvent x.var op y.var)) rfl).bind_right fun _ h => ?_
  subst h
  refine .pure ⟨?_, hq.holds.1, hp.keeps.trans hlocals hq.keeps⟩
  exact (hq.keeps x.var.name hp.holds.2).trans hp.holds.1

variable (hcalls : CallsFollow calls calls')

include hcalls

/-- Running the script of an operand computes the operand, with its negations as comparisons. -/
theorem Expr.operand_computes (e : Expr) {locals : List Local} {s : Script}
    (hs : script site e locals = .ok s) (hnames : ∀ n ∈ e.names, Settled final locals n)
    (hfinal : (s.operand site).locals <+: final) (hframe : Frame.AgreeOn e.names frame frame') :
    Follows ((s.operand site).Computes final locals frame')
      (fun limit => e.zeroed.eval (calls limit) frame)
      (fun limit => runLine limit (calls' limit) (s.operand site).ops frame') := by
  induction e generalizing locals s frame' with
  | value v =>
    cases hs
    exact Operand.leaf_computes rfl hfinal (.pure rfl)
  | var x =>
    cases hs
    exact Operand.var_computes (hnames _ (by simp [names])) (hframe _ (by simp [names]))
  | call callee args ih =>
    cases hs
    exact Operand.leaf_computes rfl hfinal ((Expr.call callee args).eval_follows hcalls hframe)
  | unary op e ih =>
    obtain ⟨t, ht, rfl⟩ := script_unary_eq_ok hs
    simp only [eval_zeroed_unary]
    refine Operand.held_computes rfl hfinal (script_operand_locals ht)
      (ih ht hnames ((Operand.locals_held rfl).trans hfinal) hframe) (fun _ _ hp => hp.keeps)
      fun v p hp => ?_
    have hty := (Script.operand_spec (leavesRest_of_script ht).1 site).1
    simp only [eval_unaryOver hp.holds.1, hty]
    exact .operator frame p.1
  | binary op l r ihl ihr =>
    obtain ⟨t, u, -, ht, hu, rfl⟩ := script_binary_eq_ok hs
    rw [names] at hframe hnames
    have hlocals := script_operand_locals ht
    have hlocals' := script_operand_locals hu
    have hfinal' : (u.operand site).locals <+: final := (Operand.locals_held rfl).trans hfinal
    simp only [zeroed, eval_binary]
    refine Operand.held_computes rfl hfinal (hlocals.trans hlocals') (Operand.both_compute
      (ihl ht (fun n hn => hnames n (by simp [hn])) (hlocals'.trans hfinal') hframe.left)
      (fun frame₁ hkeeps => ihr hu (fun n hn => (hnames n (by simp [hn])).mono hlocals) hfinal'
        (hkeeps.agreeOn hframe.right fun n hn => hnames n (by simp [hn])))
      hlocals) (fun _ _ hp => hp.keeps) fun v p hp => ?_
    exact binaryOver_follows hp.left hp.right
  | field f => cases hs
  | unmapped description ty => cases hs

/-- Running the script of an expression and evaluating what is left computes the expression, with
its negations as comparisons. -/
theorem Expr.script_computes (e : Expr) {locals : List Local} {s : Script}
    (hs : script site e locals = .ok s) (hnames : ∀ n ∈ e.names, Settled s.locals locals n)
    (hframe : Frame.AgreeOn e.names frame frame') :
    Follows Eq (fun limit => e.zeroed.eval (calls limit) frame)
      (fun limit => runLine limit (calls' limit) s.ops frame' >>= fun p =>
        s.rest.eval (calls' limit) p.1) := by
  rcases script_rest_cases hs with ⟨op, l, r, rfl⟩ | ⟨-, x, hrest⟩
  · obtain ⟨t, u, -, ht, hu, rfl⟩ := script_binary_eq_ok hs
    rw [names] at hframe hnames
    have hlocals := script_operand_locals ht
    have hlocals' := script_operand_locals hu
    simp only [zeroed, eval_binary]
    refine (Operand.both_compute
      (l.operand_computes hcalls ht (fun n hn => hnames n (by simp [hn])) hlocals' hframe.left)
      (fun frame₁ hkeeps => r.operand_computes hcalls hu
        (fun n hn => (hnames n (by simp [hn])).mono hlocals) List.prefix_rfl
        (hkeeps.agreeOn hframe.right fun n hn => hnames n (by simp [hn])))
      hlocals).bind fun v p hp => ?_
    exact binaryOver_follows hp.left hp.right
  · have hoperand : s.operand site = ⟨s.ops, x, s.locals⟩ := by rw [Script.operand, hrest]
    have hrun := e.operand_computes hcalls hs hnames (hoperand ▸ List.prefix_rfl) hframe
    rw [hoperand] at hrun
    have hbind := hrun.bind (S := Eq) (f := fun _ v => pure v)
      (g := fun limit p => s.rest.eval (calls' limit) p.1) fun v p hp => by
        simp only [hrest, eval, hp.holds.1]
        exact .pure rfl
    simpa only [bind_pure] using hbind

end

/-! ## What is yielded -/

/-- In a frame and a state, the instructions of a body from one position to another are gone
through, and then the expression has the value. -/
def Body.Yields (b : Body) (limit : Nat) (call : Call) (start stop : Nat) (rest : Expr)
    (frame : Frame) (s : MachineState) (v : Value) : Prop :=
  ∃ requests frame' s' t, b.Reaches limit call stop frame start s requests frame' s' ∧
    rest.eval call frame' s' = .ok v t

/-- Through a straight line, the value is that of the expression after the line. -/
theorem Body.yields_line_iff {b : Body} {start : Nat} {ops : List Operation}
    (hops : ∀ op ∈ ops, op.IsStraight) (hat : b.At start ops) {limit : Nat} {call : Call}
    {rest : Expr} {frame : Frame} {s : MachineState} {v : Value} :
    b.Yields limit call start (start + ops.length) rest frame s v ↔
      ∃ t, (runLine limit call ops frame >>= fun p => rest.eval call p.1) s = .ok v t := by
  simp only [Yields, reaches_line_iff hops hat rfl, bind_eq_ok]
  constructor
  · rintro ⟨requests, frame', s', t, hline, hrest⟩
    exact ⟨t, (frame', requests), s', hline, hrest⟩
  · rintro ⟨t, ⟨frame', requests⟩, s', hline, hrest⟩
    exact ⟨requests, frame', s', t, hline, hrest⟩

/-- The position of a label is that of the first instruction that carries it. -/
theorem Body.exists_split_of_position? {b : Body} {label : Label} {position : Nat}
    (h : b.position? label = some position) :
    ∃ before i after, b.instrs = before ++ i :: after ∧ before.length = position ∧
      i.label = label ∧ ∀ j ∈ before, j.label ≠ label := by
  obtain ⟨hlt, hi, hbefore⟩ := List.findIdx?_eq_some_iff_getElem.1 h
  refine ⟨b.instrs.take position, b.instrs[position], b.instrs.drop (position + 1), ?_, ?_,
    by simpa using hi, fun j hj heq => ?_⟩
  · rw [← List.drop_eq_getElem_cons hlt, List.take_append_drop]
  · exact List.length_take_of_le (Nat.le_of_lt hlt)
  · obtain ⟨n, hn, rfl⟩ := List.mem_take_iff_getElem.1 hj
    exact absurd (beq_iff_eq.2 heq) (by simpa using hbefore n (by omega))

theorem Body.mem_labels_of_position? {b : Body} {label : Label} {position : Nat}
    (h : b.position? label = some position) : label ∈ b.labels := by
  obtain ⟨before, i, after, hsplit, -, hi, -⟩ := exists_split_of_position? h
  rw [← hi, labels, hsplit]
  exact List.mem_map_of_mem (by simp)

/-- The operations of a block stand where the anchor stood. -/
theorem Body.HasBlock.at_position {b b' : Body} {anchor : Label} {block : List Instr}
    (h : HasBlock anchor block b b') {position : Nat}
    (hposition : b.position? anchor = some position) :
    b'.At position (block.map (·.op)) := by
  obtain ⟨before, i, after, hsplit, rfl, hi, hbefore⟩ := exists_split_of_position? hposition
  rw [Body.At, h.instrs_eq before i after hsplit hi hbefore, List.append_assoc,
    List.drop_left' (List.length_map _), List.map_append]
  exact List.prefix_append _ _

/-- In a frame and a state, the expression has the value. -/
def Expr.EvaluatesTo (e : Expr) (call : Call) (frame : Frame) (s : MachineState) (v : Value) :
    Prop :=
  ∃ t, e.eval call frame s = .ok v t

/-- What the frame and the host functions are to be for an expression: the variables hold values of
their types and are not named like temporaries, and all calls are of host functions that return
values of their types. -/
structure Expr.Supplied (e : Expr) (natives : Natives) (frame : Frame) : Prop where
  vars : ∀ x ∈ e.vars, Body.isTemporary x = false ∧
    ∀ v, frame.locals.get? x.name = some v → v.Conforms x.ty
  natives : ∀ callee ∈ e.callees, ∃ function,
    natives callee.owner callee.method = some function ∧
      ∀ args v, function args = .ok v → v.Conforms callee.returnType

namespace Expr.Supplied

variable {e : Expr} {natives : Natives} {frame : Frame} (h : e.Supplied natives frame)
  (p : Program) (depth : Nat)

include h

/-- No temporary takes the name of a variable of the expression. -/
theorem settled (final locals : List Local) : ∀ n ∈ e.names, Settled final locals n := by
  intro n hn _ hstem
  rw [e.names_eq_map_vars] at hn
  obtain ⟨x, hx, rfl⟩ := List.mem_map.1 hn
  have := (h.vars x hx).1
  rw [Body.isTemporary, List.isPrefixOf_iff_prefix.2 hstem] at this
  cases this

theorem partsConform (limit : Nat) :
    PartsConform (Setup.machineCalls p natives depth limit) frame e where
  vars x hx := (h.vars x ((vars_subset_of_mem_parts hx).1 (by simp [Expr.vars]))).2
  calls callee args hcall values s v t heval := by
    obtain ⟨function, hfunction, hreturns⟩ :=
      h.natives callee ((vars_subset_of_mem_parts hcall).2 (by simp [Expr.callees]))
    exact hreturns values v (Setup.function_of_dispatch hfunction heval)

theorem unstopped_zeroed (limit limit' : Nat) :
    Unstopped (e.zeroed.eval (Setup.machineCalls p natives depth limit) frame)
      (e.zeroed.eval (Setup.machineCalls p natives depth limit') frame) := by
  refine Setup.hosted_eval (fun callee hcallee => ?_) depth limit limit' frame
  obtain ⟨function, hfunction, -⟩ := h.natives callee (e.callees_zeroed ▸ hcallee)
  exact Option.isSome_iff_exists.2 ⟨function, hfunction⟩

/-- The expression with its negations as comparisons has every value that it has itself, and no
others if its negations are of truth values. -/
theorem evaluatesTo_zeroed (he : e.Divisible) (limit : Nat) (s : MachineState) (v : Value) :
    e.EvaluatesTo (Setup.machineCalls p natives depth limit) frame s v ↔
      e.NegatesBooleans ∧
        e.zeroed.EvaluatesTo (Setup.machineCalls p natives depth limit) frame s v := by
  have hparts := h.partsConform p depth limit
  constructor
  · rintro ⟨t, ht⟩
    have hneg := (negatesBooleans_of_eval he hparts ht).1
    exact ⟨hneg, t, eval_zeroed he hparts hneg ▸ ht⟩
  · rintro ⟨hneg, t, ht⟩
    exact ⟨t, eval_zeroed he hparts hneg ▸ ht⟩

end Expr.Supplied

namespace Decomposition

variable {d : Decomposition} {e rest : Expr} {b b' : Body} {position : Nat}

/-- What the inserted instructions and then the rest yield is the value of the expression with its
negations as comparisons. -/
theorem yields_iff_zeroed (h : d.decompose e b = .ok rest b')
    (hposition : b.position? d.anchor = some position)
    (hroom : b.size + e.insertions ≤ UInt32.size) {natives : Natives} {frame : Frame}
    (hsupplied : e.Supplied natives frame) (p : Program) (depth : Nat) (s : MachineState) :
    ∃ bound, ∀ limit ≥ bound, ∀ v,
      b'.Yields limit (Setup.machineCalls p natives depth limit) position
          (position + e.insertions) rest frame s v ↔
        e.zeroed.EvaluatesTo (Setup.machineCalls p natives depth limit) frame s v := by
  have hanchor := Body.mem_labels_of_position? hposition
  obtain ⟨script, block, hscript, rfl, -, -, hops, hblock⟩ := decompose_block h hanchor hroom
  have hstraight : ∀ op ∈ script.ops, op.IsStraight := fun op hop =>
    (isPart_of_mem_script hscript op hop).isStraight
  have hat : b'.At position script.ops := hops ▸ hblock.at_position hposition
  -- Under large limits the line and the rest come to what the expression comes to under one.
  have hfollows := e.script_computes (Setup.machineCalls_follow p natives depth) hscript
    (hsupplied.settled _ _) (.refl e.names frame)
  have hunstopped := hsupplied.unstopped_zeroed p depth
  obtain ⟨r, hr, hlarge⟩ := (hfollows 0 s s (.refl s)).resolve_left (hunstopped 0 0 s).2
  obtain ⟨bound, hbound⟩ := Filter.eventually_atTop.1 hlarge
  refine ⟨bound, fun limit hlimit v => ?_⟩
  have hrun := hbound limit hlimit
  simp only at hr hrun
  rw [← (leavesRest_of_script hscript).2, Body.yields_line_iff hstraight hat, hrun,
    Expr.EvaluatesTo, ← (hunstopped 0 limit s).1]
  generalize e.zeroed.eval (Setup.machineCalls p natives depth 0) frame s = r₀ at hr
  cases hr with
  | ok hvalue _ => simp [hvalue]
  | error _ _ => simp

/-- Whatever is decomposed, in whatever frame in which the variables of the expression hold values
of their types and none of them is named like a temporary, and with host functions for its calls
that return values of their types: under every limit that is large enough, what the inserted
instructions and then the rest yield is the value of the expression with its negations taken as
comparisons with zero.  For all values, that is the value of the expression itself exactly if its
negations are of truth values or nothing is yielded. -/
theorem yields_iff (h : d.decompose e b = .ok rest b')
    (hposition : b.position? d.anchor = some position)
    (hroom : b.size + e.insertions ≤ UInt32.size) {natives : Natives} {frame : Frame}
    (hsupplied : e.Supplied natives frame) (p : Program) (depth : Nat) (s : MachineState) :
    ∃ bound, ∀ limit ≥ bound,
      let call := Setup.machineCalls p natives depth limit
      let Yields := b'.Yields limit call position (position + e.insertions) rest frame s
      (∀ v, Yields v ↔ e.zeroed.EvaluatesTo call frame s v) ∧
        ((∀ v, Yields v ↔ e.EvaluatesTo call frame s v) ↔
          e.NegatesBooleans ∨ ∀ v, ¬ Yields v) := by
  obtain ⟨bound, hbound⟩ := yields_iff_zeroed h hposition hroom hsupplied p depth s
  have hanchor := Body.mem_labels_of_position? hposition
  have he : e.Divisible := (exists_decompose_iff hanchor).1 ⟨rest, b', h⟩
  refine ⟨bound, fun limit hlimit => ⟨hbound limit hlimit, ?_⟩⟩
  have hvalue := hsupplied.evaluatesTo_zeroed p depth he limit s
  simp only [hvalue, ← hbound limit hlimit]
  constructor
  · intro hsame
    by_cases hneg : e.NegatesBooleans
    · exact .inl hneg
    · exact .inr fun v hv => hneg ((hsame v).1 hv).1
  · rintro (hneg | hnone) v
    · exact ⟨fun hv => ⟨hneg, hv⟩, fun hv => hv.2⟩
    · exact ⟨fun hv => absurd hv (hnone v), fun hv => absurd hv.2 (hnone v)⟩

/-- The negation of an integer. -/
def negatedCount : Expr := .unary .not (.var ⟨"count", .int⟩)

/-- A negated integer has no value.  Decomposed, it is an integer compared with zero, and yields
that 5 is not zero. -/
theorem yields_iff_negatedCount :
    ∃ rest b', (⟨⟨0⟩, ⟨"Foo.java", 5, 1⟩, "m"⟩ : Decomposition).decompose negatedCount
        { instrs := [⟨⟨0⟩, 5, .branch negatedCount ⟨0⟩⟩] } = .ok rest b' ∧
      ∃ bound, ∀ limit ≥ bound,
        b'.Yields limit (Setup.machineCalls {} .none 0 limit) 0 3 rest
            ⟨"m", .ofList [("count", .int 5)]⟩ {} (.bool false) ∧
          ∀ v, ¬ negatedCount.EvaluatesTo (Setup.machineCalls {} .none 0 limit)
            ⟨"m", .ofList [("count", .int 5)]⟩ {} v := by
  have hdecompose : (⟨⟨0⟩, ⟨"Foo.java", 5, 1⟩, "m"⟩ : Decomposition).decompose negatedCount
      { instrs := [⟨⟨0⟩, 5, .branch negatedCount ⟨0⟩⟩] } = .ok _ _ := rfl
  have hsupplied : negatedCount.Supplied .none ⟨"m", .ofList [("count", .int 5)]⟩ := by
    refine ⟨fun x hx => ?_, fun callee hcallee => ?_⟩
    · obtain rfl : x = ⟨"count", .int⟩ := by simpa [negatedCount, Expr.vars] using hx
      exact ⟨by decide, fun v hv => by cases hv; exact .int 5⟩
    · simp [negatedCount, Expr.callees] at hcallee
  obtain ⟨bound, hbound⟩ := yields_iff hdecompose rfl (by decide) hsupplied {} 0 {}
  refine ⟨_, _, hdecompose, bound, fun limit hlimit => ⟨?_, fun v => ?_⟩⟩
  · exact ((hbound limit hlimit).1 (.bool false)).2 ⟨{}, rfl⟩
  · rintro ⟨t, ht⟩
    cases ht

end Decomposition

end TraceWeave
