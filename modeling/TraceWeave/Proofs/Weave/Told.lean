import TraceWeave.Proofs.Body.Temporaries
import TraceWeave.Proofs.Machine.StraightLine
import TraceWeave.Proofs.Weave.Script

/-!
# What scripts tell

A script computes an expression step by step and tells the recorder about it.  `Told` says which
events are the right ones for an operand, node by node and in the order of evaluation, with the
values that the nodes have and the variables that hold them; `ToldCondition` says it for a
condition.

What running a script leaves is put together from both: `Operand.Recounts` and `Script.Recounts`.
Along the way no settled name is assigned to (`Frame.Keeps`), so what a script has put into a
temporary stays there.
-/

namespace TraceWeave

/-! ## Frames during a script -/

/-- The second frame has the values of the first one for all settled names. -/
def Frame.Keeps (final locals : List Local) (frame frame' : Frame) : Prop :=
  ∀ n, Settled final locals n → frame'.locals.get? n = frame.locals.get? n

/-- The variable has the value in the frame, and no temporary to come takes its name. -/
def Frame.Holds (final locals : List Local) (frame : Frame) (x : Local) (v : Value) : Prop :=
  frame.locals.get? x.name = some v ∧ Settled final locals x.name

namespace Frame

variable {final locals locals' : List Local} {frame frame₁ frame₂ : Frame}

theorem Keeps.refl (frame : Frame) : Keeps final locals frame frame := fun _ _ => rfl

theorem Keeps.trans (h₁ : Keeps final locals frame frame₁) (hlocals : locals <+: locals')
    (h₂ : Keeps final locals' frame₁ frame₂) : Keeps final locals frame frame₂ := by
  intro n hn
  rw [h₂ n (hn.mono hlocals), h₁ n hn]

theorem Keeps.agreeOn {names : List String} (h : Keeps final locals frame₁ frame₂)
    (hframe : AgreeOn names frame frame₁) (hnames : ∀ n ∈ names, Settled final locals n) :
    AgreeOn names frame frame₂ := by
  intro n hn
  rw [h n (hnames n hn), hframe n hn]

theorem Holds.keeps {x : Local} {v : Value} (h : Holds final locals frame x v)
    (hlocals : locals <+: locals') (hkeeps : Keeps final locals frame frame₁) :
    Holds final locals' frame₁ x v :=
  ⟨(hkeeps x.name h.2).trans h.1, h.2.mono hlocals⟩

end Frame

namespace Operand

variable {site : BranchSite} {ops : List Operation} {value : Expr} {source : Source}
  {final locals : List Local} {o : Operand}

theorem ty_held (ho : o = Script.held site ops value source locals) : o.var.ty = value.ty := by
  rw [ho]
  rfl

theorem locals_held (ho : o = Script.held site ops value source locals) : locals <+: o.locals := by
  rw [ho]
  exact List.prefix_append _ _

theorem mem_held (ho : o = Script.held site ops value source locals) : o.var ∈ o.locals := by
  rw [ho]
  exact List.mem_append_right _ (List.mem_singleton_self _)

theorem keeps_held (ho : o = Script.held site ops value source locals)
    (hfinal : o.locals <+: final) (frame : Frame) (v : Value) :
    Frame.Keeps final locals frame (frame.assign o.var.name v) := by
  intro n hn
  rw [ho] at hfinal ⊢
  rw [Frame.get?_assign, if_neg]
  exact Ne.symm (hn.ne_freshLocal rfl hfinal)

theorem holds_held (ho : o = Script.held site ops value source locals) (frame : Frame)
    (v : Value) : (frame.assign o.var.name v).Holds final o.locals o.var v :=
  ⟨by rw [Frame.get?_assign, if_pos rfl], .of_mem (mem_held ho)⟩

end Operand

/-! ## The events of a condition -/

/-- The event that reports the value of a variable. -/
def BranchSite.varEvent (site : BranchSite) (x : Local) (source : Source) (v : Value) : Event :=
  .var site.file site.line x.name x.ty.text source.name (v.render x.ty)

/-- The event that reports a binary node over two variables. -/
def BranchSite.conditionEvent (site : BranchSite) (x : Local) (op : BinaryOp) (y : Local) : Event :=
  .condition site.file site.line site.index x.name op.symbol y.name

/-- The event that reports a branch. -/
def BranchSite.reachedEvent (site : BranchSite) : Event :=
  .subconditionChecked site.file site.line site.index

/-- The events tell an operand whose nodes have the values of the tree, in the order of evaluation:
the value of every node, and before that of a binary one its operator with the variables of its
operands.  The last value told is that of the operand, in its variable. -/
inductive Told (site : BranchSite) (holds : Local → Value → Prop) :
    Expr → ValueTree → Local → List Event → Prop
  | var {x : Local} {v : Value} (h : holds x v) :
      Told site holds (.var x) (.leaf v) x [site.varEvent x .variable v]
  | value {v : Value} {x : Local} (h : holds x v) (hty : x.ty = v.ty) :
      Told site holds (.value v) (.leaf v) x [site.varEvent x .constant v]
  | call {callee : Callee} {args : List Expr} {v : Value} {x : Local} (h : holds x v)
      (hty : x.ty = callee.returnType) :
      Told site holds (.call callee args) (.leaf v) x [site.varEvent x .variable v]
  | unary {op : UnaryOp} {e : Expr} {t : ValueTree} {y : Local} {events : List Event} {v : Value}
      {x : Local} (he : Told site holds e t y events) (h : holds x v)
      (hty : x.ty = (Expr.unary op e).ty) :
      Told site holds (.unary op e) (.unary v t) x (events ++ [site.varEvent x .variable v])
  | binary {op : BinaryOp} {l r : Expr} {t u : ValueTree} {y z : Local}
      {events events' : List Event} {v : Value} {x : Local} (hl : Told site holds l t y events)
      (hr : Told site holds r u z events') (h : holds x v) (hty : x.ty = (Expr.binary op l r).ty) :
      Told site holds (.binary op l r) (.binary v t u) x
        (events ++ events' ++ [site.conditionEvent y op z] ++ [site.varEvent x .variable v])

/-- The events tell a condition: like an operand, but a binary node is reported by its operator
alone, because its value decides the branch. -/
inductive ToldCondition (site : BranchSite) (holds : Local → Value → Prop) :
    Expr → ValueTree → List Event → Prop
  | binary {op : BinaryOp} {l r : Expr} {t u : ValueTree} {y z : Local}
      {events events' : List Event} {v : Value} (hl : Told site holds l t y events)
      (hr : Told site holds r u z events') :
      ToldCondition site holds (.binary op l r) (.binary v t u)
        (events ++ events' ++ [site.conditionEvent y op z])
  | operand {e : Expr} {t : ValueTree} {x : Local} {events : List Event}
      (he : ∀ op l r, e ≠ .binary op l r) (h : Told site holds e t x events) :
      ToldCondition site holds e t events

namespace Told

variable {site : BranchSite} {holds holds' : Local → Value → Prop} {e : Expr} {t : ValueTree}
  {x : Local} {events : List Event}

theorem holds_root (h : Told site holds e t x events) : holds x t.root := by
  cases h <;> assumption

theorem ty_eq (h : Told site holds e t x events) : x.ty = e.ty := by
  cases h with
  | var h => rfl
  | _ => assumption

theorem mono (hmono : ∀ x v, holds x v → holds' x v) (h : Told site holds e t x events) :
    Told site holds' e t x events := by
  induction h with
  | var h => exact .var (hmono _ _ h)
  | value h hty => exact .value (hmono _ _ h) hty
  | call h hty => exact .call (hmono _ _ h) hty
  | unary _ h hty ih => exact .unary ih (hmono _ _ h) hty
  | binary _ _ h hty ihl ihr => exact .binary ihl ihr (hmono _ _ h) hty

end Told

theorem ToldCondition.mono {site : BranchSite} {holds holds' : Local → Value → Prop} {e : Expr}
    {t : ValueTree} {events : List Event} (hmono : ∀ x v, holds x v → holds' x v)
    (h : ToldCondition site holds e t events) : ToldCondition site holds' e t events := by
  cases h with
  | binary hl hr => exact .binary (hl.mono hmono) (hr.mono hmono)
  | operand he h => exact .operand he (h.mono hmono)

/-! ## What running a script leaves -/

/-- Every logical negation in a condition, calls left aside, has an operand of type `boolean`. -/
def Expr.NegatesBooleans : Expr → Prop
  | .unary .not e => e.ty = .boolean ∧ e.NegatesBooleans
  | .unary _ e => e.NegatesBooleans
  | .binary _ l r => l.NegatesBooleans ∧ r.NegatesBooleans
  | _ => True

theorem Expr.NegatesBooleans.of_unary {op : UnaryOp} {e : Expr}
    (h : (Expr.unary op e).NegatesBooleans) : e.NegatesBooleans := by
  cases op with
  | not => exact h.2
  | _ => exact h

theorem Decomposition.ty_unaryOver {op : UnaryOp} {x : Local} {e : Expr} (h : x.ty = e.ty) :
    (unaryOver op x).ty = (Expr.unary op e).ty := by
  cases op <;> simp [unaryOver, Expr.ty, BinaryOp.isRelational, h]

/-- What running an operand leaves: the events tell it by what the frame holds then, and no settled
name was assigned to. -/
structure Operand.Recounts (site : BranchSite) (final locals : List Local) (e : Expr) (o : Operand)
    (frame : Frame) (t : ValueTree) (p : Frame × List RecorderRequest) : Prop where
  told : ∃ events : List Event, p.2 = events.map .event ∧
    Told site (p.1.Holds final o.locals) e t o.var events
  keeps : Frame.Keeps final locals frame p.1

/-- What running a binary node leaves, before its value is computed. -/
structure Operand.RecountsBoth (site : BranchSite) (final locals : List Local) (op : BinaryOp)
    (l r : Expr) (x y : Operand) (frame : Frame) (t : ValueTree × ValueTree)
    (p : Frame × List RecorderRequest) : Prop where
  told : ∃ events events' : List Event,
    p.2 = (events ++ events' ++ [site.conditionEvent x.var op y.var]).map .event ∧
    Told site (p.1.Holds final y.locals) l t.1 x.var events ∧
    Told site (p.1.Holds final y.locals) r t.2 y.var events'
  keeps : Frame.Keeps final locals frame p.1

/-- What running the script of a condition, its report and what is left of it comes to: the value
of the condition, with events that tell it and then report the branch. -/
structure Script.Recounts (site : BranchSite) (final locals : List Local) (e : Expr) (s : Script)
    (frame : Frame) (t : ValueTree) (q : (Frame × List RecorderRequest) × Value) : Prop where
  value : q.2 = t.root
  told : ∃ events : List Event, q.1.2 = events.map .event ++ [.event site.reachedEvent] ∧
    ToldCondition site (q.1.1.Holds final s.locals) e t events
  keeps : Frame.Keeps final locals frame q.1.1

namespace Operand

variable {site : BranchSite} {final locals : List Local} {frame : Frame}
  {p : Frame × List RecorderRequest} {o o' : Operand}

/-- An operand without parts is told by its value alone. -/
theorem Recounts.of_leaf {e value : Expr} {source : Source} {t : ValueTree} {v : Value}
    (ho : o = Script.held site [] value source locals) (hfinal : o.locals <+: final)
    (h : Told site ((frame.assign o.var.name v).Holds final o.locals) e t o.var
      [site.varEvent o.var source v]) :
    o.Recounts site final locals e frame t
      (frame.assign o.var.name v, [.event (site.varEvent o.var source v)]) :=
  ⟨⟨_, rfl, h⟩, keeps_held ho hfinal frame v⟩

/-- A unary node is told after its operand. -/
theorem Recounts.unary {op : UnaryOp} {e : Expr} {t : ValueTree}
    (h : o.Recounts site final locals e frame t p) (hlocals : locals <+: o.locals)
    (ho' : o' = Script.held site o.ops (Decomposition.unaryOver op o.var) .variable o.locals)
    (hfinal : o'.locals <+: final) (v : Value) :
    o'.Recounts site final locals (.unary op e) frame (.unary v t)
      (p.1.assign o'.var.name v, p.2 ++ [.event (site.varEvent o'.var .variable v)]) := by
  obtain ⟨⟨events, hevents, htold⟩, hkeeps⟩ := h
  have hassign := keeps_held ho' hfinal p.1 v
  refine ⟨⟨events ++ [site.varEvent o'.var .variable v], by rw [hevents]; simp, ?_⟩,
    hkeeps.trans hlocals hassign⟩
  have hty : o'.var.ty = (Expr.unary op e).ty :=
    (ty_held ho').trans (Decomposition.ty_unaryOver htold.ty_eq)
  exact .unary (htold.mono fun x w hx => hx.keeps (locals_held ho') hassign)
    (holds_held ho' p.1 v) hty

/-- A binary node is told after its operands. -/
theorem RecountsBoth.held {op : BinaryOp} {l r : Expr} {x y : Operand}
    {t : ValueTree × ValueTree} {ops : List Operation}
    (h : RecountsBoth site final locals op l r x y frame t p) (hlocals : locals <+: y.locals)
    (ho : o = Script.held site ops (.binary op (.var x.var) (.var y.var)) .variable y.locals)
    (hfinal : o.locals <+: final) (v : Value) :
    o.Recounts site final locals (.binary op l r) frame (.binary v t.1 t.2)
      (p.1.assign o.var.name v, p.2 ++ [.event (site.varEvent o.var .variable v)]) := by
  obtain ⟨⟨events, events', hevents, hl, hr⟩, hkeeps⟩ := h
  have hassign := keeps_held ho hfinal p.1 v
  have hmono : ∀ z w, p.1.Holds final y.locals z w →
      (p.1.assign o.var.name v).Holds final o.locals z w := fun z w hz =>
    hz.keeps (locals_held ho) hassign
  have hty : o.var.ty = (Expr.binary op l r).ty := by
    rw [ty_held ho]
    simp only [Expr.ty, hl.ty_eq, hr.ty_eq]
  refine ⟨⟨_, ?_, .binary (hl.mono hmono) (hr.mono hmono) (holds_held ho p.1 v) hty⟩,
    hkeeps.trans hlocals hassign⟩
  rw [hevents]
  simp

end Operand

end TraceWeave
