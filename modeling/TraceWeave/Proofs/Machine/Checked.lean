import TraceWeave.Proofs.Machine.Congruence
import TraceWeave.Proofs.Stateful

/-!
# The checked machine

Decomposing a condition turns a logical negation into a comparison with zero.  The two agree on
truth values only, so what weaving preserves is said of runs in which no negation of a condition
meets anything else.  The checked machine makes this precise: it runs like the machine, but computes
conditions by `Expr.checkedTree`, which gives up where a negation meets what is no truth value.
Giving up looks like using up the budget, and `Setup.checkedInvoke_stopsOrEquals` says that the two
machines agree unless the checked one stops for this reason.
-/

namespace TraceWeave

/-- A fault that only says that a run was stopped. -/
def Fault.IsStop (f : Fault) : Prop := ∃ limit, f.cause = .stepLimit limit

/-- A run that was stopped. -/
def Stops {α : Type} (r : EStateM.Result Fault MachineState α) : Prop :=
  ∃ f s, r = .error f s ∧ f.IsStop

theorem Frame.operator_eq_ok {α : Type} {frame : Frame} {x : Except OperatorError α} {a : α}
    {s s' : MachineState} : frame.operator x s = .ok a s' ↔ x = .ok a ∧ s = s' := by
  cases x with
  | ok b => simp [operator]
  | error e => simp [operator, fail]

/-- The values of the nodes of an expression, calls and everything in them taken as one node. -/
inductive ValueTree where
  /-- The value of a node whose parts are not looked at. -/
  | leaf (v : Value)
  /-- The value of a unary node over its operand. -/
  | unary (v : Value) (operand : ValueTree)
  /-- The value of a binary node over its operands. -/
  | binary (v : Value) (left right : ValueTree)

/-- The value of the expression itself. -/
def ValueTree.root : ValueTree → Value
  | .leaf v => v
  | .unary v _ => v
  | .binary v _ _ => v

/-- The values of the nodes of a condition; gives up at a negation of what is no truth value. -/
def Expr.checkedTree (call : Call) (frame : Frame) : Expr → MachineM ValueTree
  | .unary .not e => do
    let t ← e.checkedTree call frame
    match t.root with
    | .bool b => return .unary (.bool !b) t
    | _ => frame.fail (.stepLimit 0)
  | .unary op e => do
    let t ← e.checkedTree call frame
    let v ← frame.operator (Value.unary op t.root)
    return .unary v t
  | .binary op l r => do
    let t ← l.checkedTree call frame
    let u ← r.checkedTree call frame
    let v ← frame.operator (Value.binary op t.root u.root)
    return .binary v t u
  | e => do
    let v ← e.eval call frame
    return .leaf v

/-- Executes an operation, with conditions checked. -/
def Operation.checkedExecute (call : Call) (b : Body) (frame : Frame) (position : Nat) :
    Operation → MachineM Control
  | .branch condition target => do
    let t ← condition.checkedTree call frame
    if ← frame.operator t.root.truth then b.jump frame target
    else return .next frame (position + 1)
  | op => op.execute call b frame position

/-- Runs a body from a position, with conditions checked. -/
def Body.checkedFrom (limit : Nat) (call : Call) (b : Body) :
    Nat → Frame → Nat → MachineM (Option Value)
  | 0, frame, _ => frame.fail (.stepLimit limit)
  | rounds + 1, frame, position =>
    match b.instrs[position]? with
    | none => return none
    | some i => do
      countStep limit frame
      match ← i.op.checkedExecute call b frame position with
      | .next frame position => b.checkedFrom limit call rounds frame position
      | .finish result => return result

namespace Setup

/-- Runs a method of a class, with conditions checked. -/
def checkedExecute (setup : Setup) : Nat → String → Method → List Value → MachineM (Option Value)
  | 0, owner, m, _ => throw ⟨m.signature owner, .callDepth⟩
  | depth + 1, owner, m, args => do
    let signature := m.signature owner
    if args.length ≠ m.params.length then
      throw ⟨signature, .arity m.params.length args.length⟩
    let frame : Frame := ⟨signature, .ofList ((m.params.map (·.name)).zip args)⟩
    openFrame
    let call := setup.dispatch (setup.checkedExecute depth)
    let result ← m.body.checkedFrom setup.stepLimit call (setup.stepLimit + 1) frame 0
    closeFrame
    return result

/-- Calls a method at the top level, with conditions checked. -/
def checkedInvoke (setup : Setup) (owner method : String) (args : List Value) :
    MachineM (Option Value) := do
  modify MachineState.rewound
  setup.dispatch (setup.checkedExecute (maxDepth + 1)) ⟨owner, method, .void⟩ args

end Setup

/-! ## The checked machine stops or agrees -/

/-- The first computation stops, or else the second one does the same. -/
def StopsOrEquals {α : Type} (x y : MachineM α) : Prop := ∀ s, Stops (x s) ∨ x s = y s

namespace StopsOrEquals

variable {α β : Type} {x y : MachineM α}

theorem refl (x : MachineM α) : StopsOrEquals x x := fun _ => .inr rfl

theorem bind (h : StopsOrEquals x y) {f g : α → MachineM β} (hfg : ∀ a, StopsOrEquals (f a) (g a)) :
    StopsOrEquals (x >>= f) (y >>= g) := by
  intro s
  rcases h s with ⟨e, t, hx, he⟩ | hx
  · exact .inl ⟨e, t, bind_of_error f hx, he⟩
  · cases hy : y s with
    | ok a t =>
      rw [hy] at hx
      rw [bind_of_ok f hx, bind_of_ok g hy]
      exact hfg a t
    | error e t =>
      rw [hy] at hx
      rw [bind_of_error f hx, bind_of_error g hy]
      exact .inr rfl

theorem trans {z : MachineM α} (h : StopsOrEquals x y) (h' : StopsOrEquals y z) :
    StopsOrEquals x z := by
  intro s
  rcases h s with hs | hs
  · exact .inl hs
  · rw [hs]
    exact h' s

theorem bind_left (h : StopsOrEquals x y) (f : α → MachineM β) :
    StopsOrEquals (x >>= f) (y >>= f) := h.bind fun a => refl (f a)

theorem bind_right (x : MachineM α) {f g : α → MachineM β} (hfg : ∀ a, StopsOrEquals (f a) (g a)) :
    StopsOrEquals (x >>= f) (x >>= g) := (refl x).bind hfg

theorem of_stop {y : MachineM β} (frame : Frame) (limit : Nat) (f : α → MachineM β) :
    StopsOrEquals (frame.fail (.stepLimit limit) >>= f) y :=
  fun s => .inl ⟨_, s, rfl, limit, rfl⟩

theorem congruence : Congruence @StopsOrEquals where
  pure _ := .refl _
  fail _ := .refl _
  get := .refl _
  write _ _ := .refl _
  bind h hfg := h.bind hfg

end StopsOrEquals

section

variable {call call' : Call}
  (hcall : ∀ callee args, StopsOrEquals (call callee args) (call' callee args))

include hcall

theorem Expr.eval_stopsOrEquals (frame : Frame) (e : Expr) :
    StopsOrEquals (e.eval call frame) (e.eval call' frame) :=
  StopsOrEquals.congruence.eval call call' frame e fun callee _ => hcall callee

/-- The values of the nodes end in the value of the condition. -/
theorem Expr.checkedTree_stopsOrEquals {β : Type} (frame : Frame) (e : Expr)
    (f : Value → MachineM β) :
    StopsOrEquals (e.checkedTree call frame >>= fun t => f t.root) (e.eval call' frame >>= f) := by
  induction e generalizing β with
  | value v => exact .refl _
  | var x =>
    simp only [checkedTree, bind_assoc, pure_bind, ValueTree.root]
    exact .refl _
  | unary op e ih =>
    cases op with
    | not =>
      simp only [checkedTree, eval, bind_assoc]
      refine (StopsOrEquals.bind_right _ fun t => ?_).trans
        (ih fun v => frame.operator (Value.unary .not v) >>= f)
      cases t.root with
      | bool b => exact .refl _
      | _ => exact StopsOrEquals.of_stop frame 0 _
    | neg =>
      simp only [checkedTree, eval, bind_assoc, pure_bind, ValueTree.root]
      exact ih fun v => frame.operator (Value.unary .neg v) >>= f
    | bitNot =>
      simp only [checkedTree, eval, bind_assoc, pure_bind, ValueTree.root]
      exact ih fun v => frame.operator (Value.unary .bitNot v) >>= f
  | binary op l r ihl ihr =>
    simp only [checkedTree, eval, bind_assoc, pure_bind, ValueTree.root]
    have hleft := ihl fun v => r.eval call' frame >>= fun w =>
      frame.operator (Value.binary op v w) >>= f
    refine StopsOrEquals.trans (StopsOrEquals.bind_right _ fun t => ?_) hleft
    exact ihr fun w => frame.operator (Value.binary op t.root w) >>= f
  | call callee args ih =>
    simp only [checkedTree, bind_assoc, pure_bind, ValueTree.root]
    exact ((Expr.call callee args).eval_stopsOrEquals hcall frame).bind_left f
  | field g =>
    simp only [checkedTree, bind_assoc, pure_bind, ValueTree.root]
    exact .refl _
  | unmapped description ty =>
    simp only [checkedTree, bind_assoc, pure_bind, ValueTree.root]
    exact .refl _

theorem Operation.checkedExecute_stopsOrEquals (b : Body) (frame : Frame) (position : Nat)
    (op : Operation) :
    StopsOrEquals (op.checkedExecute call b frame position)
      (op.execute call' b frame position) := by
  cases op with
  | assign target value =>
    cases target with
    | var x => exact (value.eval_stopsOrEquals hcall frame).bind_left _
    | field f => exact (value.eval_stopsOrEquals hcall frame).bind_left _
  | branch condition target =>
    rw [checkedExecute, execute]
    exact condition.checkedTree_stopsOrEquals hcall frame fun v => do
      if ← frame.operator v.truth then b.jump frame target
      else return .next frame (position + 1)
  | goto target => exact .refl _
  | invoke callee args =>
    exact (StopsOrEquals.congruence.evalAll call call' frame hcall args).bind fun values =>
      (hcall callee values).bind_left _
  | ret value =>
    cases value with
    | none => exact .refl _
    | some value => exact (value.eval_stopsOrEquals hcall frame).bind_left _
  | probe p => exact .refl _
  | nop => exact .refl _

theorem Body.checkedFrom_stopsOrEquals (limit : Nat) (b : Body) (rounds : Nat) (frame : Frame)
    (position : Nat) :
    StopsOrEquals (b.checkedFrom limit call rounds frame position)
      (b.runFrom limit call' rounds frame position) := by
  induction rounds generalizing frame position with
  | zero => exact .refl _
  | succ rounds ih =>
    rw [checkedFrom, runFrom]
    cases b.instrs[position]? with
    | none => exact .refl _
    | some i =>
      refine .bind_right _ fun _ => (i.op.checkedExecute_stopsOrEquals hcall b frame position).bind
        fun control => ?_
      cases control with
      | next frame position => exact ih frame position
      | finish result => exact .refl _

end

namespace Setup

variable (setup : Setup)

theorem dispatch_stopsOrEquals
    {run run' : String → Method → List Value → MachineM (Option Value)}
    (h : ∀ owner m args, StopsOrEquals (run owner m args) (run' owner m args)) (callee : Callee)
    (args : List Value) :
    StopsOrEquals (setup.dispatch run callee args) (setup.dispatch run' callee args) := by
  refine .bind_right _ fun _ => ?_
  cases setup.natives callee.owner callee.method with
  | some function => exact .refl _
  | none =>
    cases setup.resolve? callee with
    | some m => exact h callee.owner m args
    | none => exact .refl _

theorem checkedExecute_stopsOrEquals (depth : Nat) (owner : String) (m : Method)
    (args : List Value) :
    StopsOrEquals (setup.checkedExecute depth owner m args) (setup.execute depth owner m args) := by
  induction depth generalizing owner m args with
  | zero => exact .refl _
  | succ depth ih =>
    rw [checkedExecute, execute]
    split
    · exact .refl _
    · exact .bind_right _ fun _ => (Body.checkedFrom_stopsOrEquals
        (setup.dispatch_stopsOrEquals ih) _ _ _ _ _).bind_left _

theorem checkedInvoke_stopsOrEquals (owner method : String) (args : List Value) :
    StopsOrEquals (setup.checkedInvoke owner method args) (setup.invoke owner method args) :=
  .bind_right _ fun _ =>
    setup.dispatch_stopsOrEquals (setup.checkedExecute_stopsOrEquals _) _ _

end Setup

end TraceWeave
