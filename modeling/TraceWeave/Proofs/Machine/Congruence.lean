import TraceWeave.Machine.Basic
import TraceWeave.Proofs.Expr.Induction

/-!
# What is said of calls and follows for instructions

The machine takes its way to call methods as a parameter, so what an expression or an instruction
does under two such ways can be compared.  Several relations between computations do that: that the
first one stops or does the same, that it is cut off somewhere, that neither is stopped.  They hold
of computations that only return, fail or look at the state, and they are kept by doing one thing
after another.  A relation of this kind (`Congruence`) that holds of the calls in an expression
holds of the expression (`Congruence.eval`), and so it holds of an instruction
(`Congruence.execute`).
-/

namespace TraceWeave

/-! ## The calls in an expression -/

mutual

/-- The methods that an expression calls, each one before those in its arguments. -/
def Expr.callees : Expr → List Callee
  | .unary _ e => e.callees
  | .binary _ l r => l.callees ++ r.callees
  | .call callee args => callee :: Expr.calleesOf args
  | .value _ | .var _ | .field _ | .unmapped _ _ => []

/-- The methods that a list of expressions calls, from left to right. -/
def Expr.calleesOf : List Expr → List Callee
  | [] => []
  | e :: rest => e.callees ++ Expr.calleesOf rest

end

theorem Expr.mem_calleesOf {callee : Callee} {e : Expr} {args : List Expr} (he : e ∈ args)
    (h : callee ∈ e.callees) : callee ∈ calleesOf args := by
  induction args with
  | nil => cases he
  | cons d rest ih =>
    rw [calleesOf, List.mem_append]
    rcases List.mem_cons.1 he with rfl | he
    · exact .inl h
    · exact .inr (ih he)

/-! ## Congruences -/

/-- A relation between computations that holds of a computation and itself if it takes one step that
is neither a call nor a probe and does not use up the budget, and that is kept in sequence. -/
structure Congruence (R : {α : Type} → MachineM α → MachineM α → Prop) : Prop where
  pure : ∀ {α : Type} (a : α), R (pure a) (pure a)
  fail : ∀ {α : Type} {frame : Frame} {cause : FaultCause},
    (∀ limit, cause ≠ .stepLimit limit) → R (frame.fail cause : MachineM α) (frame.fail cause)
  get : R (get : MachineM MachineState) get
  write : ∀ (key : String × String) (v : Value),
    R (modify fun s => { s with statics := s.statics.insert key v })
      (modify fun s => { s with statics := s.statics.insert key v })
  bind : ∀ {α β : Type} {x y : MachineM α} {f g : α → MachineM β},
    R x y → (∀ a, R (f a) (g a)) → R (x >>= f) (y >>= g)

namespace Congruence

variable {R : {α : Type} → MachineM α → MachineM α → Prop} (hR : Congruence R)

include hR

theorem operator {α : Type} (frame : Frame) (e : Except OperatorError α) :
    R (frame.operator e) (frame.operator e) := by
  cases e with
  | ok a => exact hR.pure a
  | error e => exact hR.fail (by simp)

theorem jump (b : Body) (frame : Frame) (label : Label) :
    R (b.jump frame label) (b.jump frame label) := by
  unfold Body.jump
  split
  · exact hR.pure _
  · exact hR.fail (by simp)

variable (call call' : Call) (frame : Frame)

theorem evalAll_of_mem {args : List Expr}
    (h : ∀ e ∈ args, R (e.eval call frame) (e.eval call' frame)) :
    R (Expr.evalAll call frame args) (Expr.evalAll call' frame args) := by
  induction args with
  | nil => exact hR.pure []
  | cons e rest ih =>
    rw [Expr.evalAll, Expr.evalAll]
    exact hR.bind (h e (by simp)) fun v =>
      hR.bind (ih fun d hd => h d (by simp [hd])) fun values => hR.pure (v :: values)

/-- The relation holds of an expression if it holds of the calls in it. -/
theorem eval (e : Expr)
    (h : ∀ callee ∈ e.callees, ∀ args, R (call callee args) (call' callee args)) :
    R (e.eval call frame) (e.eval call' frame) := by
  induction e with
  | value v => exact hR.pure v
  | var x =>
    rw [Expr.eval, Expr.eval]
    split
    · exact hR.pure _
    · exact hR.fail (by simp)
  | unary op e ih =>
    rw [Expr.eval, Expr.eval]
    exact hR.bind (ih h) fun v => hR.operator frame _
  | binary op l r ihl ihr =>
    rw [Expr.callees] at h
    rw [Expr.eval, Expr.eval]
    exact hR.bind (ihl fun c hc => h c (by simp [hc])) fun v =>
      hR.bind (ihr fun c hc => h c (by simp [hc])) fun w => hR.operator frame _
  | call callee args ih =>
    rw [Expr.callees] at h
    rw [Expr.eval, Expr.eval]
    refine hR.bind (hR.evalAll_of_mem call call' frame fun e he => ih e he fun c hc =>
      h c (List.mem_cons_of_mem _ (Expr.mem_calleesOf he hc))) fun values => ?_
    refine hR.bind (h callee (by simp) values) fun result => ?_
    cases result with
    | some v => exact hR.pure v
    | none => exact hR.fail (by simp)
  | field f =>
    rw [Expr.eval, Expr.eval]
    refine hR.bind hR.get fun s => ?_
    split
    · exact hR.pure _
    · exact hR.fail (by simp)
  | unmapped description ty => exact hR.fail (by simp)

section

variable (hcall : ∀ callee args, R (call callee args) (call' callee args))

include hcall

theorem evalAll (args : List Expr) :
    R (Expr.evalAll call frame args) (Expr.evalAll call' frame args) :=
  hR.evalAll_of_mem call call' frame fun e _ => hR.eval call call' frame e fun c _ => hcall c

/-- The relation holds of an instruction if it holds of calls and, where the instruction is a probe,
of firing it. -/
theorem execute (b : Body) (position : Nat) {op : Operation}
    (hprobe : ∀ p, op = .probe p → R (p.fire frame) (p.fire frame)) :
    R (op.execute call b frame position) (op.execute call' b frame position) := by
  have heval (e : Expr) := hR.eval call call' frame e fun c _ => hcall c
  cases op with
  | assign target value =>
    cases target with
    | var x => exact hR.bind (heval value) fun v => hR.pure _
    | field f => exact hR.bind (heval value) fun v => hR.bind (hR.write _ v) fun _ => hR.pure _
  | branch condition target =>
    refine hR.bind (heval condition) fun v => hR.bind (hR.operator frame _) fun holds => ?_
    split
    · exact hR.jump b frame target
    · exact hR.pure _
  | goto target => exact hR.jump b frame target
  | invoke callee args =>
    exact hR.bind (hR.evalAll call call' frame hcall args) fun values =>
      hR.bind (hcall callee values) fun _ => hR.pure _
  | ret value =>
    cases value with
    | none => exact hR.pure _
    | some value => exact hR.bind (heval value) fun v => hR.pure _
  | probe p => exact hR.bind (hprobe p rfl) fun _ => hR.pure _
  | nop => exact hR.pure _

end

end Congruence

end TraceWeave
