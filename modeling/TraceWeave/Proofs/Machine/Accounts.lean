import TraceWeave.Proofs.Expr.Induction
import TraceWeave.Proofs.Machine.Courses
import TraceWeave.Proofs.Machine.Offers

/-!
# Accounts of courses

That a run has a course, and what its courses log, is proved of each piece of the machine together:
a course goes on from where another one ended, and may only rely on what that one logged.  An
`Account` is what may be logged from one state to the next.  `Account.Describes` says of courses and
a computation that the computation has a course, that every course gives its result, and that all
of them log what the account allows.  The last two are also needed where the first is not known.

Described computations compose as the machine does, so the lemmas lead from calls to expressions, to
operations, and back to calls.
-/

namespace TraceWeave

/-! ## Usage -/

/-- What a run has used. -/
structure Usage where
  /-- The instructions executed. -/
  executed : Nat := 0
  /-- The frames that are active. -/
  active : Nat := 0
  /-- The greatest number of frames that were active at a time. -/
  deepest : Nat := 0

namespace Usage

/-- The usage after one more thing has happened. -/
def after (u : Usage) : Happening → Usage
  | .opened => { u with active := u.active + 1, deepest := max u.deepest (u.active + 1) }
  | .executed _ => { u with executed := u.executed + 1 }
  | .closed => { u with active := u.active - 1 }

/-- The usage after everything in a log. -/
def afterAll (u : Usage) (log : List Happening) : Usage := log.foldl after u

variable (u : Usage)

@[simp] theorem afterAll_nil : u.afterAll [] = u := rfl

@[simp] theorem afterAll_cons (h : Happening) (log : List Happening) :
    u.afterAll (h :: log) = (u.after h).afterAll log := rfl

@[simp] theorem afterAll_append (log log' : List Happening) :
    u.afterAll (log ++ log') = (u.afterAll log).afterAll log' := List.foldl_append

theorem executed_le_afterAll (log : List Happening) : u.executed ≤ (u.afterAll log).executed := by
  induction log generalizing u with
  | nil => exact Nat.le_refl _
  | cons h log ih =>
    have hafter : u.executed ≤ (u.after h).executed := by
      cases h <;> simp [after]
    exact Nat.le_trans hafter (ih _)

end Usage

/-- The usage that a state counts. -/
def MachineState.usage (s : MachineState) : Usage := ⟨s.steps, s.active, s.deepest⟩

/-- A computation that uses nothing. -/
def Quiet {α : Type} (x : MachineM α) : Prop := ∀ s, (stateAfter (x s)).usage = s.usage

namespace Quiet

variable {α β : Type}

theorem pure (a : α) : Quiet (pure a) := fun _ => rfl

theorem throw (f : Fault) : Quiet (throw f : MachineM α) := fun _ => rfl

theorem get : Quiet (get : MachineM MachineState) := fun _ => rfl

theorem bind {x : MachineM α} {f : α → MachineM β} (hx : Quiet x) (hf : ∀ a, Quiet (f a)) :
    Quiet (x >>= f) := by
  intro s
  have hs := hx s
  cases h : x s with
  | error e t =>
    rw [bind_of_error f h]
    rwa [h] at hs
  | ok a t =>
    rw [bind_of_ok f h, hf a t]
    rwa [h] at hs

theorem operator (frame : Frame) (e : Except OperatorError α) : Quiet (frame.operator e) := by
  cases e with
  | ok a => exact .pure a
  | error e => exact .throw _

theorem jump (b : Body) (frame : Frame) (label : Label) : Quiet (b.jump frame label) := by
  unfold Body.jump
  split
  · exact .pure _
  · exact .throw _

theorem fire (frame : Frame) (p : Probe) : Quiet (p.fire frame) := by
  unfold Probe.fire
  split
  · exact fun _ => rfl
  · exact .throw _
  · exact .pure _

end Quiet

/-! ## Accounts -/

/-- What courses may log. -/
structure Account (ε : Type) where
  /-- The states that a course may start from. -/
  ready : MachineState → Prop
  /-- What may be logged by what succeeds. -/
  done : MachineState → List ε → MachineState → Prop
  /-- What may be logged by what fails. -/
  failed : MachineState → List ε → MachineState → Prop
  /-- What succeeds leaves a state to go on from. -/
  ready_of_done : ∀ {s t log}, done s log t → ready t
  /-- What uses nothing may log nothing. -/
  nothing : ∀ {s t}, ready s → t.usage = s.usage → done s [] t ∧ failed s [] t
  /-- One thing may be done after another. -/
  done_trans : ∀ {s t u log log'}, done s log t → done t log' u → done s (log ++ log') u
  /-- Something may fail after another thing is done. -/
  failed_trans : ∀ {s t u log log'}, done s log t → failed t log' u → failed s (log ++ log') u

namespace Account

variable {ε α β : Type}

/-- What may be logged by what ends in a result. -/
def Allows (A : Account ε) (s : MachineState) (log : List ε) :
    EStateM.Result Fault MachineState α → Prop
  | .ok _ t => A.done s log t
  | .error _ t => A.failed s log t

theorem Allows.append {A : Account ε} {s t : MachineState} {log log' : List ε}
    {r : EStateM.Result Fault MachineState α} (h : A.done s log t) (h' : A.Allows t log' r) :
    A.Allows s (log ++ log') r := by
  cases r with
  | ok a u => exact A.done_trans h h'
  | error e u => exact A.failed_trans h h'

/-- The courses are those of the computation, and they log what the account allows.  That there is a
course may depend on what is known of the calls that are made. -/
structure Describes (A : Account ε) (known : Prop) (C : Course ε α) (x : MachineM α) : Prop where
  /-- The computation has a course. -/
  total : known → ∀ s, A.ready s → ∃ log, C s log (x s)
  /-- Every course ends as the computation does. -/
  sound : ∀ {s log r}, A.ready s → C s log r → r = x s ∧ A.Allows s log r

namespace Describes

variable {A : Account ε} {known : Prop} {C : Course ε α} {x : MachineM α}

theorem of_quiet (h : Quiet x) : A.Describes known (.of x) x where
  total _ s _ := ⟨[], rfl, rfl⟩
  sound := by
    rintro s _ _ hready ⟨rfl, rfl⟩
    refine ⟨rfl, ?_⟩
    have hs := h s
    cases hx : x s with
    | ok a t =>
      rw [hx] at hs
      exact (A.nothing hready hs).1
    | error f t =>
      rw [hx] at hs
      exact (A.nothing hready hs).2

theorem bind {D : α → Course ε β} {f : α → MachineM β} (h : A.Describes known C x)
    (hf : ∀ a, A.Describes known (D a) (f a)) : A.Describes known (.bind C D) (x >>= f) where
  total hknown s hready := by
    obtain ⟨log, hlog⟩ := h.total hknown s hready
    cases hx : x s with
    | error e t =>
      rw [bind_of_error f hx]
      exact ⟨log, .failed (hx ▸ hlog)⟩
    | ok a t =>
      have hdone : A.Allows s log (.ok a t) := (h.sound hready (hx ▸ hlog)).2
      obtain ⟨log', hlog'⟩ := (hf a).total hknown t (A.ready_of_done hdone)
      rw [bind_of_ok f hx]
      exact ⟨log ++ log', .done (hx ▸ hlog) hlog'⟩
  sound := by
    rintro s _ _ hready (hfailed | ⟨hdone, hrest⟩)
    · obtain ⟨hx, hlog⟩ := h.sound hready hfailed
      exact ⟨(bind_of_error f hx.symm).symm, hlog⟩
    · obtain ⟨hx, hlog⟩ := h.sound hready hdone
      obtain ⟨hfx, hlog'⟩ := (hf _).sound (A.ready_of_done hlog) hrest
      exact ⟨hfx.trans (bind_of_ok f hx.symm).symm, .append hlog hlog'⟩

theorem attempted (hfailed : ∀ {s t log}, A.failed s log t → A.done s log t)
    (h : A.Describes known C x) : A.Describes known (.attempted C) (Setup.attempt x) where
  total hknown s hready := by
    obtain ⟨log, hlog⟩ := h.total hknown s hready
    exact ⟨log, x s, hlog, rfl⟩
  sound := by
    rintro s log _ hready ⟨r, hlog, rfl⟩
    obtain ⟨rfl, hallows⟩ := h.sound hready hlog
    refine ⟨rfl, ?_⟩
    unfold Setup.attempt
    cases hx : x s with
    | ok a t =>
      rw [hx] at hallows
      exact hallows
    | error e t =>
      rw [hx] at hallows
      exact hfailed hallows

end Describes

/-! ## Expressions, operations and calls -/

namespace Describes

variable {A : Account Happening} {known : Prop} {calls : Calls} {call : Call}

/-- Expressions are described in order if each of them is. -/
theorem evalEach (frame : Frame) {args : List Expr}
    (h : ∀ e ∈ args, A.Describes known (e.course calls frame) (e.eval call frame)) :
    A.Describes known (Expr.courseAll calls frame args) (Expr.evalAll call frame args) := by
  induction args with
  | nil => exact .of_quiet (.pure _)
  | cons e rest ih =>
    rw [List.forall_mem_cons] at h
    rw [Expr.courseAll, Expr.evalAll]
    exact h.1.bind fun v => (ih h.2).bind fun _ => .of_quiet (.pure _)

section

variable (hcall : ∀ callee args, A.Describes known (calls callee args) (call callee args))

include hcall

theorem eval (frame : Frame) (e : Expr) :
    A.Describes known (e.course calls frame) (e.eval call frame) := by
  induction e with
  | value v => exact .of_quiet (.pure v)
  | var x =>
    refine .of_quiet ?_
    rw [Expr.eval]
    split
    · exact .pure _
    · exact .throw _
  | unary op e ih =>
    rw [Expr.course, Expr.eval]
    exact ih.bind fun v => .of_quiet (.operator frame _)
  | binary op l r ihl ihr =>
    rw [Expr.course, Expr.eval]
    exact ihl.bind fun v => ihr.bind fun w => .of_quiet (.operator frame _)
  | call callee args ih =>
    rw [Expr.course, Expr.eval]
    refine (evalEach frame ih).bind fun values => (hcall callee values).bind fun result => ?_
    cases result with
    | some v => exact .of_quiet (.pure v)
    | none => exact .of_quiet (.throw _)
  | field f =>
    refine .of_quiet ?_
    rw [Expr.eval]
    refine .bind .get fun s => ?_
    split
    · exact .pure _
    · exact .throw _
  | unmapped description ty => exact .of_quiet (.throw _)

theorem evalAll (frame : Frame) (args : List Expr) :
    A.Describes known (Expr.courseAll calls frame args) (Expr.evalAll call frame args) :=
  evalEach frame fun e _ => Describes.eval hcall frame e

theorem execute (b : Body) (frame : Frame) (position : Nat) (op : Operation) :
    A.Describes known (op.course calls b frame position) (op.execute call b frame position) := by
  cases op with
  | assign target value =>
    cases target with
    | var x => exact (Describes.eval hcall frame value).bind fun v => .of_quiet (.pure _)
    | field f => exact (Describes.eval hcall frame value).bind fun v => .of_quiet fun _ => rfl
  | branch condition target =>
    refine (Describes.eval hcall frame condition).bind fun v => .of_quiet ?_
    refine .bind (.pure v) fun v => .bind (.operator frame _) fun b' => ?_
    split
    · exact .jump b frame target
    · exact .pure _
  | goto target => exact .of_quiet (.jump b frame target)
  | invoke callee args =>
    exact (Describes.evalAll hcall frame args).bind fun values =>
      (hcall callee values).bind fun _ => .of_quiet (.pure _)
  | ret value =>
    cases value with
    | none => exact .of_quiet (.pure _)
    | some value => exact (Describes.eval hcall frame value).bind fun v => .of_quiet (.pure _)
  | probe p => exact .of_quiet (.bind (.fire frame p) fun _ => .pure _)
  | nop => exact .of_quiet (.pure _)

end

theorem dispatch {setup : Setup}
    {runCourse : String → Method → List Value → Course Happening (Option Value)}
    {run : String → Method → List Value → MachineM (Option Value)}
    (hrun : ∀ owner m args, A.Describes known (runCourse owner m args) (run owner m args))
    (callee : Callee) (args : List Value) :
    A.Describes known (setup.dispatchCourse runCourse callee args)
      (setup.dispatch run callee args) := by
  refine .bind (.of_quiet fun _ => rfl) fun _ => ?_
  cases setup.natives callee.owner callee.method with
  | some function =>
    refine .bind (.of_quiet fun _ => rfl) fun _ => ?_
    cases function args with
    | ok v => exact .of_quiet (.pure _)
    | error e => exact .of_quiet (.throw _)
  | none =>
    cases setup.resolve? callee with
    | some m => exact hrun callee.owner m args
    | none => exact .of_quiet (.throw _)

end Describes

end Account

end TraceWeave
