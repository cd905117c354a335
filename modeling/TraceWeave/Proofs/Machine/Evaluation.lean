import TraceWeave.Proofs.Machine.Follows

/-!
# Evaluation in frames that agree

Expressions are evaluated in two machines whose calls follow one another.  It is enough that the
frames agree on the variables that the expression names: `Expr.eval_follows` for the machine and
`Expr.checkedTree_follows` for conditions in the checked machine.
-/

namespace TraceWeave

mutual

/-- The names of the variables that stand in an expression. -/
def Expr.names : Expr → List String
  | .var x => [x.name]
  | .unary _ e => e.names
  | .binary _ l r => l.names ++ r.names
  | .call _ args => Expr.namesOf args
  | .value _ | .field _ | .unmapped _ _ => []

/-- The names of the variables that stand in a list of expressions. -/
def Expr.namesOf : List Expr → List String
  | [] => []
  | e :: rest => e.names ++ Expr.namesOf rest

end

/-- The names of the variables that stand in an operation. -/
def Operation.names : Operation → List String
  | .assign (.var x) value => x.name :: value.names
  | .assign (.field _) value => value.names
  | .branch condition _ => condition.names
  | .invoke _ args => Expr.namesOf args
  | .ret (some value) => value.names
  | .probe (.capture _ _ x _) => [x.name]
  | _ => []

/-- The frames give the same values to some names. -/
def Frame.AgreeOn (names : List String) (frame frame' : Frame) : Prop :=
  ∀ n ∈ names, frame'.locals.get? n = frame.locals.get? n

namespace Frame.AgreeOn

variable {frame frame' : Frame} {l l' : List String}

theorem refl (l : List String) (frame : Frame) : AgreeOn l frame frame := fun _ _ => rfl

theorem left (h : AgreeOn (l ++ l') frame frame') : AgreeOn l frame frame' :=
  fun n hn => h n (List.mem_append_left _ hn)

theorem right (h : AgreeOn (l ++ l') frame frame') : AgreeOn l' frame frame' :=
  fun n hn => h n (List.mem_append_right _ hn)

end Frame.AgreeOn

/-- A probe does the same in frames that agree on the variable that it captures. -/
theorem Probe.fire_follows {p : Probe} {frame frame' : Frame}
    (h : Frame.AgreeOn (Operation.probe p).names frame frame') :
    Follows Eq (fun _ => p.fire frame) (fun _ => p.fire frame') := by
  have hrequest : p.request? frame' = p.request? frame := by
    cases p with
    | capture file line x source =>
      simp only [request?]
      rw [h x.name (by simp [Operation.names])]
    | _ => rfl
  cases hr : p.request? frame with
  | some r =>
    simp only [fire, hrequest, hr]
    exact .modify_unseen fun _ => ⟨rfl, rfl, rfl, rfl⟩
  | none =>
    simp only [fire, hrequest, hr]
    cases p with
    | capture file line x source => exact .fail (by simp)
    | _ => exact .pure rfl

theorem Frame.get?_assign (frame : Frame) (name n : String) (v : Value) :
    (frame.assign name v).locals.get? n = if name = n then some v else frame.locals.get? n :=
  frame.locals.get?_insert name n v

/-- The calls of the second machine follow those of the first. -/
def CallsFollow (calls calls' : Nat → Call) : Prop :=
  ∀ callee args, Follows Eq (fun limit => calls limit callee args)
    (fun limit => calls' limit callee args)

variable {calls calls' : Nat → Call} {frame frame' : Frame}

theorem Expr.eval_var_follows {x : Local}
    (hx : frame'.locals.get? x.name = frame.locals.get? x.name) :
    Follows Eq (fun limit => (Expr.var x).eval (calls limit) frame)
      (fun limit => (Expr.var x).eval (calls' limit) frame') := by
  simp only [eval, hx]
  cases frame.locals.get? x.name with
  | some v => exact .pure rfl
  | none => exact .fail (by simp)

theorem Expr.evalAll_follows_of_mem {args : List Expr}
    (h : ∀ e ∈ args, Frame.AgreeOn e.names frame frame' →
      Follows Eq (fun limit => e.eval (calls limit) frame)
        (fun limit => e.eval (calls' limit) frame'))
    (hframe : Frame.AgreeOn (namesOf args) frame frame') :
    Follows Eq (fun limit => evalAll (calls limit) frame args)
      (fun limit => evalAll (calls' limit) frame' args) := by
  induction args with
  | nil => exact .pure rfl
  | cons e rest ih =>
    simp only [evalAll]
    rw [namesOf] at hframe
    refine (h e (by simp) hframe.left).bind_eq fun v => ?_
    exact (ih (fun d hd => h d (by simp [hd])) hframe.right).bind_eq fun _ => .pure rfl

variable (hcalls : CallsFollow calls calls')

include hcalls

theorem Expr.eval_follows (e : Expr) (hframe : Frame.AgreeOn e.names frame frame') :
    Follows Eq (fun limit => e.eval (calls limit) frame)
      (fun limit => e.eval (calls' limit) frame') := by
  induction e with
  | value v => exact .pure rfl
  | var x => exact eval_var_follows (hframe x.name (by simp [names]))
  | unary op e ih =>
    simp only [eval]
    rw [names] at hframe
    exact (ih hframe).bind_eq fun v => .operator frame frame'
  | binary op l r ihl ihr =>
    simp only [eval]
    rw [names] at hframe
    exact (ihl hframe.left).bind_eq fun v => (ihr hframe.right).bind_eq fun w =>
      .operator frame frame'
  | call callee args ih =>
    simp only [eval]
    rw [names] at hframe
    refine (evalAll_follows_of_mem ih hframe).bind_eq fun values => ?_
    refine (hcalls callee values).bind_eq fun result => ?_
    cases result with
    | some v => exact .pure rfl
    | none => exact .fail (by simp)
  | field f =>
    simp only [eval]
    refine .read fun s s' hs => ?_
    rw [hs.statics]
    cases s.statics.get? (f.owner, f.name) with
    | some v => exact .pure rfl
    | none => exact .fail (by simp)
  | unmapped description ty => exact .fail (by simp)

theorem Expr.evalAll_follows (args : List Expr)
    (hframe : Frame.AgreeOn (namesOf args) frame frame') :
    Follows Eq (fun limit => evalAll (calls limit) frame args)
      (fun limit => evalAll (calls' limit) frame' args) :=
  evalAll_follows_of_mem (fun e _ => e.eval_follows hcalls) hframe

theorem Expr.checkedTree_follows (e : Expr) (hframe : Frame.AgreeOn e.names frame frame') :
    Follows Eq (fun limit => e.checkedTree (calls limit) frame)
      (fun limit => e.checkedTree (calls' limit) frame') := by
  have hleaf : ∀ e : Expr, Frame.AgreeOn e.names frame frame' →
      Follows Eq (fun limit => ValueTree.leaf <$> e.eval (calls limit) frame)
        (fun limit => ValueTree.leaf <$> e.eval (calls' limit) frame') := fun e he =>
    (e.eval_follows hcalls he).bind_eq fun _ => .pure rfl
  induction e with
  | value v => exact hleaf _ hframe
  | var x => exact hleaf _ hframe
  | unary op e ih =>
    rw [names] at hframe
    cases op with
    | not =>
      simp only [checkedTree]
      refine (ih hframe).bind_eq fun t => ?_
      cases t.root with
      | bool b => exact .pure rfl
      | _ => exact .of_stop frame 0 _
    | neg =>
      simp only [checkedTree]
      exact (ih hframe).bind_eq fun t => (Follows.operator frame frame').bind_eq fun _ => .pure rfl
    | bitNot =>
      simp only [checkedTree]
      exact (ih hframe).bind_eq fun t => (Follows.operator frame frame').bind_eq fun _ => .pure rfl
  | binary op l r ihl ihr =>
    simp only [checkedTree]
    rw [names] at hframe
    exact (ihl hframe.left).bind_eq fun t => (ihr hframe.right).bind_eq fun u =>
      (Follows.operator frame frame').bind_eq fun _ => .pure rfl
  | call callee args ih => exact hleaf _ hframe
  | field f => exact hleaf _ hframe
  | unmapped description ty => exact hleaf _ hframe

end TraceWeave
