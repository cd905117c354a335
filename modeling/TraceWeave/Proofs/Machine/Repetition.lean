import TraceWeave.Proofs.Machine.StraightLine
import Mathlib.Order.Filter.AtTopBot.Tendsto

/-!
# Runs under other budgets

The machine takes no decision by the trace or by the steps it has counted, except to stop.  So a
call that is not stopped comes to the same under every budget that is large enough
(`Setup.machineCalls_follow`), whatever the trace holds by then.
-/

namespace TraceWeave

section

variable {calls calls' : Nat → Call} (hcalls : CallsFollow calls calls')

include hcalls

theorem Operation.execute_follows (b : Body) (frame : Frame) (position : Nat) (op : Operation) :
    Follows Eq (fun limit => op.execute (calls limit) b frame position)
      (fun limit => op.execute (calls' limit) b frame position) := by
  have hjump : ∀ t, Follows Eq (fun _ => b.jump frame t) (fun _ => b.jump frame t) := by
    intro t
    unfold Body.jump
    cases b.jumpPosition? t with
    | some n => exact .pure rfl
    | none => exact .fail (by simp)
  cases op with
  | assign target value =>
    have hvalue := value.eval_follows hcalls (.refl value.names frame)
    cases target with
    | var x => exact hvalue.bind_eq fun v => .pure rfl
    | field f =>
      refine hvalue.bind_eq fun v => Follows.bind_eq (.modify fun s s' hs => ?_) fun _ => .pure rfl
      exact ⟨by simp only [hs.statics], hs.calls, hs.hostCalls, hs.initialized⟩
  | branch condition target =>
    refine (condition.eval_follows hcalls (.refl condition.names frame)).bind_eq fun v => ?_
    refine (Follows.operator frame frame).bind_eq fun holds => ?_
    cases holds with
    | true => exact hjump target
    | false => exact .pure rfl
  | goto target => exact hjump target
  | invoke callee args =>
    refine (Expr.evalAll_follows hcalls args (.refl _ frame)).bind_eq fun values => ?_
    exact (hcalls callee values).bind_eq fun _ => .pure rfl
  | ret value =>
    cases value with
    | none => exact .pure rfl
    | some value =>
      exact (value.eval_follows hcalls (.refl value.names frame)).bind_eq fun v => .pure rfl
  | probe p => exact (p.fire_follows (.refl _ frame)).bind_eq fun _ => .pure rfl
  | nop => exact .pure rfl

theorem Body.runFrom_follows (b : Body) (rounds : Nat) (frame : Frame) (position : Nat)
    {rounds' : Nat → Nat} (hrounds : Filter.Tendsto rounds' Filter.atTop Filter.atTop) :
    Follows Eq (fun limit => b.runFrom limit (calls limit) rounds frame position)
      (fun limit => b.runFrom limit (calls' limit) (rounds' limit) frame position) := by
  induction rounds generalizing frame position rounds' with
  | zero => exact fun limit s _ _ => .inl ⟨_, s, rfl, limit, rfl⟩
  | succ rounds ih =>
    have hgrow : Filter.Tendsto (fun limit => rounds' limit - 1) Filter.atTop Filter.atTop :=
      (Filter.tendsto_sub_atTop_nat 1).comp hrounds
    have hstep : Follows Eq (fun limit => b.runFrom limit (calls limit) (rounds + 1) frame position)
        (fun limit => b.runFrom limit (calls' limit) (rounds' limit - 1 + 1) frame position) := by
      simp only [runFrom]
      cases b.instrs[position]? with
      | none => exact .pure rfl
      | some i =>
        refine (Follows.countStep frame frame).bind_eq fun _ => ?_
        refine (i.op.execute_follows hcalls b frame position).bind_eq fun control => ?_
        cases control with
        | next frame position => exact ih frame position hgrow
        | finish result => exact .pure rfl
    refine hstep.congr_right ?_
    filter_upwards [hrounds.eventually_ge_atTop 1] with limit hlimit
    rw [Nat.sub_add_cancel hlimit]

end

namespace Setup

/-- Calls follow if the methods that they name do. -/
theorem dispatch_follows {p p' : Program} {natives : Natives} {R : Method → Method → Prop}
    (hmethod : ∀ owner name, Option.Rel R ((p.class? owner).bind fun c => c.method? name)
      ((p'.class? owner).bind fun c => c.method? name))
    {run run' : Nat → String → Method → List Value → MachineM (Option Value)}
    (hrun : ∀ owner m m' args, R m m' → Follows Eq (fun limit => run limit owner m args)
      (fun limit => run' limit owner m' args)) :
    CallsFollow (fun limit => dispatch ⟨p, natives, limit⟩ (run limit))
      (fun limit => dispatch ⟨p', natives, limit⟩ (run' limit)) := by
  intro callee args
  unfold dispatch
  refine Follows.bind_eq (.modify fun s s' hs => ?_) fun _ => ?_
  · exact ⟨hs.statics, by simp only [MachineState.callCount, hs.calls], hs.hostCalls,
      hs.initialized⟩
  · cases hnative : natives callee.owner callee.method with
    | some function =>
      simp only [hnative]
      refine Follows.bind_eq (.modify fun s s' hs => ?_) fun _ => ?_
      · exact ⟨hs.statics, hs.calls, by simp only [hs.hostCalls], hs.initialized⟩
      · cases function args with
        | ok v => exact .pure rfl
        | error e => exact .throw (by simp)
    | none =>
      simp only [hnative, resolve?]
      have hresolve := hmethod callee.owner callee.method
      generalize (p.class? callee.owner).bind (fun c => c.method? callee.method) = m,
        (p'.class? callee.owner).bind (fun c => c.method? callee.method) = m' at hresolve
      cases hresolve with
      | none => exact .throw (by simp)
      | some hm => exact hrun callee.owner _ _ args hm

/-- Calls within a program, at a call depth, under every limit. -/
def machineCalls (p : Program) (natives : Natives) (depth limit : Nat) : Call :=
  dispatch ⟨p, natives, limit⟩ (execute ⟨p, natives, limit⟩ depth)

/-- A call that is not stopped comes to the same under every limit that is large enough. -/
theorem machineCalls_follow (p : Program) (natives : Natives) (depth : Nat) :
    CallsFollow (machineCalls p natives depth) (machineCalls p natives depth) := by
  have hmethod : ∀ owner name, Option.Rel Eq ((p.class? owner).bind fun c => c.method? name)
      ((p.class? owner).bind fun c => c.method? name) := by
    intro owner name
    cases (p.class? owner).bind fun c => c.method? name with
    | none => exact .none
    | some m => exact .some rfl
  refine dispatch_follows hmethod ?_
  induction depth with
  | zero => exact fun _ _ _ _ _ => .throw (by simp)
  | succ depth ih =>
    rintro owner m _ args rfl
    simp only [execute]
    split
    · exact .throw (by simp)
    · have hrun : ∀ rounds frame, Follows Eq
          (fun limit => m.body.runFrom limit (machineCalls p natives depth limit) rounds frame 0)
          (fun limit => m.body.runFrom limit (machineCalls p natives depth limit) (limit + 1)
            frame 0) := fun rounds frame =>
        m.body.runFrom_follows (dispatch_follows hmethod ih) rounds frame 0
          (Filter.tendsto_add_atTop_nat 1)
      exact .inFrame fun limit => hrun (limit + 1) _ limit

end Setup

end TraceWeave
