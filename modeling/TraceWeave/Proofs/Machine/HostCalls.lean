import TraceWeave.Proofs.Machine.Repetition

/-!
# Expressions that call host functions only

No instruction is executed while a host function is called.  So an expression whose calls are all
calls of host functions does not use the budget: it is never stopped, and it comes to the same under
every limit and at every call depth (`Setup.hosted_eval`).
-/

namespace TraceWeave

mutual

/-- The variables that stand in an expression, from left to right. -/
def Expr.vars : Expr → List Local
  | .var x => [x]
  | .unary _ e => e.vars
  | .binary _ l r => l.vars ++ r.vars
  | .call _ args => Expr.varsOf args
  | .value _ | .field _ | .unmapped _ _ => []

/-- The variables that stand in a list of expressions, from left to right. -/
def Expr.varsOf : List Expr → List Local
  | [] => []
  | e :: rest => e.vars ++ Expr.varsOf rest

end

theorem Expr.names_eq_map_vars (e : Expr) : e.names = e.vars.map (·.name) := by
  induction e with
  | unary op e ih => exact ih
  | binary op l r ihl ihr => rw [names, vars, List.map_append, ihl, ihr]
  | call callee args ih =>
    rw [names, vars]
    induction args with
    | nil => rfl
    | cons e rest ihrest =>
      rw [namesOf, varsOf, List.map_append, ih e (by simp),
        ihrest fun d hd => ih d (by simp [hd])]
  | _ => rfl

/-- Both computations do the same, and they are not stopped. -/
def Unstopped {α : Type} (x y : MachineM α) : Prop := ∀ s, x s = y s ∧ ¬ Stops (x s)

namespace Unstopped

variable {α β : Type} {x y : MachineM α}

theorem pure (a : α) : Unstopped (pure a) (pure a) :=
  fun _ => ⟨rfl, by rintro ⟨_, _, ⟨⟩, _⟩⟩

theorem throw {f : Fault} (h : ∀ limit, f.cause ≠ .stepLimit limit) :
    Unstopped (throw f : MachineM α) (throw f) :=
  fun _ => ⟨rfl, by rintro ⟨_, _, ⟨⟩, limit, hlimit⟩; exact h limit hlimit⟩

theorem fail {frame : Frame} {cause : FaultCause} (h : ∀ limit, cause ≠ .stepLimit limit) :
    Unstopped (frame.fail cause : MachineM α) (frame.fail cause) :=
  .throw h

theorem modify (f : MachineState → MachineState) :
    Unstopped (modify f : MachineM PUnit) (modify f) :=
  fun _ => ⟨rfl, by rintro ⟨_, _, ⟨⟩, _⟩⟩

theorem get : Unstopped (get : MachineM MachineState) get :=
  fun _ => ⟨rfl, by rintro ⟨_, _, ⟨⟩, _⟩⟩

theorem bind {f g : α → MachineM β} (h : Unstopped x y) (hfg : ∀ a, Unstopped (f a) (g a)) :
    Unstopped (x >>= f) (y >>= g) := by
  intro s
  obtain ⟨hxy, hx⟩ := h s
  cases hy : y s with
  | ok a t =>
    rw [bind_of_ok f (hxy.trans hy), bind_of_ok g hy]
    exact hfg a t
  | error e t =>
    rw [hxy, hy] at hx
    rw [bind_of_error f (hxy.trans hy), bind_of_error g hy]
    exact ⟨rfl, fun ⟨_, _, heq, hstop⟩ => by cases heq; exact hx ⟨e, t, rfl, hstop⟩⟩

theorem congruence : Congruence @Unstopped where
  pure := .pure
  fail h := .fail h
  get := .get
  write _ _ := .modify _
  bind h hfg := h.bind hfg

end Unstopped

section

variable {call call' : Call} {frame : Frame}

/-- An expression is not stopped if the calls in it are not. -/
theorem Expr.unstopped_eval (e : Expr)
    (h : ∀ callee ∈ e.callees, ∀ args, Unstopped (call callee args) (call' callee args)) :
    Unstopped (e.eval call frame) (e.eval call' frame) :=
  Unstopped.congruence.eval call call' frame e h

end

namespace Setup

/-- A call of a host function is counted and noted, and comes to what the function does. -/
theorem dispatch_of_native {setup : Setup} {callee : Callee} {function : HostFunction}
    (h : setup.natives callee.owner callee.method = some function)
    (run : String → Method → List Value → MachineM (Option Value)) (args : List Value) :
    setup.dispatch run callee args = (do
      countCall callee
      noteHostCall callee args
      match function args with
      | .ok v => return some v
      | .error e => throw ⟨callee.text, .host e⟩) := by
  unfold dispatch
  split
  · next function' h' =>
    obtain rfl : function = function' := Option.some.inj (h.symm.trans h')
    rfl
  · next h' => simp [h] at h'

/-- What a host function returns to the machine is what it comes to. -/
theorem function_of_dispatch {setup : Setup} {callee : Callee} {function : HostFunction}
    (h : setup.natives callee.owner callee.method = some function)
    {run : String → Method → List Value → MachineM (Option Value)} {args : List Value} {v : Value}
    {s t : MachineState} (hcall : setup.dispatch run callee args s = .ok (some v) t) :
    function args = .ok v := by
  rw [dispatch_of_native h] at hcall
  obtain ⟨_, _, -, hcall⟩ := bind_eq_ok.1 hcall
  obtain ⟨_, _, -, hcall⟩ := bind_eq_ok.1 hcall
  cases hf : function args with
  | ok w =>
    rw [hf] at hcall
    cases hcall
    rfl
  | error e =>
    rw [hf] at hcall
    cases hcall

/-- An expression that calls host functions only comes to the same under every limit, and is never
stopped. -/
theorem hosted_eval {p : Program} {natives : Natives} {e : Expr}
    (h : ∀ callee ∈ e.callees, (natives callee.owner callee.method).isSome)
    (depth limit limit' : Nat) (frame : Frame) :
    Unstopped (e.eval (machineCalls p natives depth limit) frame)
      (e.eval (machineCalls p natives depth limit') frame) := by
  refine e.unstopped_eval fun callee hcallee args => ?_
  obtain ⟨function, hfunction⟩ := Option.isSome_iff_exists.1 (h callee hcallee)
  rw [machineCalls, machineCalls, dispatch_of_native hfunction, dispatch_of_native hfunction]
  refine (Unstopped.modify _).bind fun _ => (Unstopped.modify _).bind fun _ => ?_
  cases function args with
  | ok v => exact .pure _
  | error e => exact .throw (by simp)

end Setup

end TraceWeave
