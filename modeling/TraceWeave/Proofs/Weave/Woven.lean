import TraceWeave.Proofs.Body.Consistency
import TraceWeave.Proofs.Weave.Malformed
import TraceWeave.Proofs.Weave.Telling

/-!
# Woven bodies

`Layout.Weaves` says what all weavers have in common: there are marks at the entry and before
instructions, conditions of branches may be decomposed, and a body that control can fall off may
have got a return.  `Plan.exists_weaves_of_apply` says so of every weaver that goes through.

What weaving preserves is said of regular bodies (`Body.Regular`), and weaving leaves them regular
(`Layout.Weaves.regular`): the temporaries that it adds are declared, and it leaves no negation in a
condition that it decomposes.
-/

namespace TraceWeave

/-! ## Regular bodies -/

/-- The condition of a branch negates only what has type `boolean`. -/
def Operation.NegatesBooleans : Operation → Prop
  | .branch condition _ => condition.NegatesBooleans
  | _ => True

/-- A consistent body in which variables that are named like temporaries are declared, and logical
negations in conditions have operands of type `boolean`. -/
structure Body.Regular (b : Body) : Prop where
  consistent : b.defect? = none
  declares : ∀ i ∈ b.instrs, ∀ n ∈ i.op.names, Declares b.locals n
  negates : ∀ i ∈ b.instrs, i.op.NegatesBooleans

theorem Operation.names_of_isMark {op : Operation} (h : op.isMark) : op.names = [] := by
  cases op with
  | probe p => cases p <;> first | rfl | cases h
  | _ => cases h

theorem Operation.target?_of_isMark {op : Operation} (h : op.isMark) : op.target? = none := by
  cases op with
  | probe p => rfl
  | _ => cases h

theorem Operation.names_retarget (f : Label → Label) (op : Operation) :
    (op.retarget f).names = op.names := by
  cases op <;> rfl

theorem Operation.negatesBooleans_of_target?_none {op : Operation} (h : op.target? = none) :
    op.NegatesBooleans := by
  cases op with
  | branch condition target => cases h
  | _ => trivial

theorem Operation.negatesBooleans_retarget {f : Label → Label} {op : Operation} :
    (op.retarget f).NegatesBooleans ↔ op.NegatesBooleans := by
  cases op <;> rfl

/-! ## The names in scripts -/

/-- The names that stand in a script are declared afterwards, if they are like those of
temporaries. -/
structure Script.NamesDeclared (s : Script) : Prop where
  ops : ∀ op ∈ s.ops, ∀ n ∈ op.names, Declares s.locals n
  rest : ∀ n ∈ s.rest.names, Declares s.locals n

/-- The names that stand in an operand are declared afterwards, if they are like those of
temporaries. -/
structure Operand.NamesDeclared (o : Operand) : Prop where
  ops : ∀ op ∈ o.ops, ∀ n ∈ op.names, Declares o.locals n
  var : Declares o.locals o.var.name

theorem Operand.NamesDeclared.held {site : BranchSite} {ops : List Operation} {value : Expr}
    {source : Source} {locals : List Local} {o : Operand}
    (ho : o = Script.held site ops value source locals)
    (hops : ∀ op ∈ ops, ∀ n ∈ op.names, Declares locals n)
    (hvalue : ∀ n ∈ value.names, Declares locals n) : o.NamesDeclared := by
  have hvar : Declares o.locals o.var.name := .of_mem (mem_held ho)
  refine ⟨fun op hop n hn => ?_, hvar⟩
  have hmem : op ∈ ops ∨ op = .assign (.var o.var) value ∨
      op = Script.captureOp site o.var source := by
    rw [ho] at hop ⊢
    simpa [Script.held] using hop
  rcases hmem with hmem | rfl | rfl
  · exact (hops op hmem n hn).mono (locals_held ho)
  · rcases List.mem_cons.1 hn with rfl | hn
    · exact hvar
    · exact (hvalue n hn).mono (locals_held ho)
  · rw [List.mem_singleton.1 hn]
    exact hvar

theorem Script.NamesDeclared.operand {s : Script} (h : s.NamesDeclared) (site : BranchSite) :
    (s.operand site).NamesDeclared := by
  rcases s.operand_cases site with ⟨x, hrest, hs⟩ | ⟨-, hs⟩
  · rw [hs]
    exact ⟨h.ops, h.rest x.name (by simp [hrest, Expr.names])⟩
  · exact .held hs h.ops h.rest

theorem Operand.NamesDeclared.ofOperand {o : Operand} (h : o.NamesDeclared) :
    (Script.ofOperand o).NamesDeclared :=
  ⟨h.ops, fun n hn => by
    rw [List.mem_singleton.1 hn]
    exact h.var⟩

theorem Decomposition.names_unaryOver (op : UnaryOp) (x : Local) :
    (unaryOver op x).names = [x.name] := by
  cases op <;> rfl

theorem namesDeclared_of_script {site : BranchSite} {e : Expr} {locals : List Local} {s : Script}
    (h : script site e locals = .ok s) (hnames : ∀ n ∈ e.names, Declares locals n) :
    s.NamesDeclared := by
  induction e generalizing locals s with
  | value v =>
    cases h
    exact (Operand.NamesDeclared.held rfl (by simp) (by simp [Expr.names])).ofOperand
  | var x =>
    cases h
    have hx : Declares locals x.name := hnames x.name (by simp [Expr.names])
    exact ⟨by simpa [Script.captureOp, Operation.names] using hx, by simpa [Expr.names] using hx⟩
  | call callee args =>
    cases h
    exact (Operand.NamesDeclared.held rfl (by simp) hnames).ofOperand
  | unary op e ih =>
    obtain ⟨t, ht, rfl⟩ := script_unary_eq_ok h
    have hoperand := (ih ht hnames).operand site
    refine (Operand.NamesDeclared.held rfl hoperand.ops fun n hn => ?_).ofOperand
    rw [Decomposition.names_unaryOver, List.mem_singleton] at hn
    rw [hn]
    exact hoperand.var
  | binary op l r ihl ihr =>
    obtain ⟨t, u, -, ht, hu, rfl⟩ := script_binary_eq_ok h
    rw [Expr.names] at hnames
    have hlocals := script_operand_locals ht
    have hlocals' := script_operand_locals hu
    have hx := (ihl ht fun n hn => hnames n (by simp [hn])).operand site
    have hy := (ihr hu fun n hn => (hnames n (by simp [hn])).mono hlocals).operand site
    refine ⟨fun op' hop n hn => ?_, fun n hn => ?_⟩
    · simp only [Script.ofBinary, List.mem_append, List.mem_singleton] at hop
      rcases hop with (hop | hop) | rfl
      · exact (hx.ops op' hop n hn).mono hlocals'
      · exact hy.ops op' hop n hn
      · cases hn
    · simp only [Script.ofBinary, Expr.names, List.mem_append, List.mem_singleton] at hn
      rcases hn with rfl | rfl
      · exact hx.var.mono hlocals'
      · exact hy.var
  | field f => cases h
  | unmapped description ty => cases h

/-- No negation is left of a condition. -/
theorem negatesBooleans_rest_of_script {site : BranchSite} {e : Expr} {locals : List Local}
    {s : Script} (h : script site e locals = .ok s) : s.rest.NegatesBooleans := by
  rcases script_rest_cases h with ⟨op, l, r, rfl⟩ | ⟨-, x, hrest⟩
  · obtain ⟨t, u, -, -, -, rfl⟩ := script_binary_eq_ok h
    exact ⟨trivial, trivial⟩
  · rw [hrest]
    trivial

/-! ## What weavers have in common -/

/-- A slot around an instruction: there are marks before it, and if it is a branch, its condition
may be decomposed after those. -/
def Instr.Woven (declared available : List Local) (i : Instr) (s : Slot) : Prop :=
  i.Marked s ∨ ∃ site marks ops, (∀ op ∈ marks, op.isMark) ∧ s.ops = marks ++ ops ∧
    i.Decomposed site declared available ops s.instr

theorem Instr.Woven.carried {declared available : List Local} {i : Instr} {s : Slot}
    (h : i.Woven declared available s) : i.Carried s := by
  rcases h with h | ⟨site, marks, ops, -, -, h⟩
  · exact .of_eq h.1
  · exact h.carried

/-- A layout of a woven body over the instructions that a body had. -/
structure Layout.Weaves (y : Layout) (b b' : Body) : Prop where
  lays : y.Lays b'
  locals : b.locals <+: b'.locals
  opening : ∀ e ∈ y.opening, e.2.isMark
  closing : y.closing = [] ∨
    ∃ l mark l', Operation.isMark mark ∧ y.closing = [(l, mark), (l', .ret none)]
  slots : List.Forall₂ (Instr.Woven b.locals b'.locals) b.instrs y.slots

theorem Layout.Weaves.refl (b : Body) : (ofInstrs b.instrs).Weaves b b where
  lays := ofInstrs_lays b
  locals := List.prefix_rfl
  opening := by simp [ofInstrs]
  closing := .inl rfl
  slots := by
    rw [ofInstrs, List.forall₂_map_right_iff]
    exact List.forall₂_same.2 fun i _ => .inl ⟨rfl, by simp [Slot.ops]⟩

/-- Every weaver that goes through weaves in this way. -/
theorem Plan.exists_weaves_of_apply {plan : Plan} {weaver : Weaver} {target : MethodTarget}
    {w w' : Workpiece} {o : Outcome} (h : plan.apply weaver target w = .ok o w')
    (hnodup : w'.body.labels.Nodup) : ∃ y : Layout, y.Weaves w.body w'.body := by
  cases weaver with
  | product =>
    obtain ⟨hlocals, added, -, y, hy, hopening, hclosing, hslots⟩ :=
      Product.weave_layout h hnodup
    refine ⟨y, hy, hlocals, by simp [hopening], .inl hclosing, hslots.imp fun i s hs => ?_⟩
    obtain ⟨ops, hops, hbranches⟩ := hs
    have hmarks : ∀ op ∈ Product.lineProbes target.file added i.label, op.isMark := by
      intro op hop
      obtain ⟨e, -, rfl⟩ := List.mem_map.1 hop
      rfl
    rcases hbranches with ⟨-, rfl, hinstr⟩ | ⟨line, index, -, hdecomposed⟩
    · rw [List.append_nil] at hops
      exact .inl ⟨hinstr, by rwa [hops]⟩
    · exact .inr ⟨_, _, ops, hmarks, hops, hdecomposed⟩
  | fieldAccess =>
    obtain ⟨hlocals, y, hy, hopening, hclosing, hslots⟩ :=
      FieldAccess.weave_layout (onBody_eq_ok h).1 hnodup
    refine ⟨y, hy, hlocals ▸ List.prefix_rfl, by simp [hopening], .inl hclosing,
      hslots.imp fun i s hs => ?_⟩
    refine .inl ⟨hs.1, fun op hop => ?_⟩
    obtain ⟨line, field, rfl⟩ := hs.2 op hop
    rfl
  | lifecycle =>
    obtain ⟨hlocals, y, hy, hopening, hclosing, hslots⟩ :=
      Lifecycle.weave_layout (onBody_eq_ok h).1 hnodup
    refine ⟨y, hy, hlocals ▸ List.prefix_rfl, hopening, ?_, hslots.imp fun i s hs => .inl hs⟩
    rcases hclosing with hclosing | ⟨-, l, l', hclosing⟩
    · exact .inl hclosing
    · exact .inr ⟨l, _, l', rfl, hclosing⟩

/-! ## Woven bodies are regular -/

/-- What stands in a woven body. -/
theorem Layout.Weaves.op_cases {y : Layout} {b b' : Body} (h : y.Weaves b b') {i : Instr}
    (hi : i ∈ b'.instrs) :
    i.op.isMark ∨ i.op = .ret none ∨ (∃ j ∈ b.instrs, i.op = j.op.retarget y.destination) ∨
      ∃ site, ∃ j ∈ b.instrs, ∃ condition target before s, j.op = .branch condition target ∧
        b.locals <+: before ∧ script site condition before = .ok s ∧ s.locals <+: b'.locals ∧
        (i.op ∈ s.ops ∨ ∃ t, i.op = .branch s.rest t) := by
  rw [h.lays.instrs_eq, instrs] at hi
  simp only [List.mem_append, List.mem_map, List.mem_flatMap, Slot.emit,
    List.mem_singleton] at hi
  rcases hi with (⟨e, he, rfl⟩ | ⟨s, hs, hi⟩) | ⟨e, he, rfl⟩
  · exact .inl (h.opening e he)
  · obtain ⟨j, hj, hwoven⟩ := exists_of_mem_forall₂ h.slots hs
    rcases hwoven with ⟨hinstr, hmarks⟩ | ⟨site, marks, ops, hmarks, hops, hdecomposed⟩
    · rcases hi with ⟨e, he, rfl⟩ | rfl
      · exact .inl (hmarks e.2 (List.mem_map_of_mem he))
      · exact .inr (.inr (.inl ⟨j, hj, by rw [hinstr]; rfl⟩))
    · obtain ⟨condition, target, before, r, hop, hbefore, hr, hlocals, rfl, hinstr⟩ := hdecomposed
      rcases hi with ⟨e, he, rfl⟩ | rfl
      · have hmem : e.2 ∈ s.ops := List.mem_map_of_mem he
        rw [hops, List.mem_append, List.mem_append, List.mem_singleton] at hmem
        rcases hmem with hmem | hmem | hmem
        · exact .inl (hmarks e.2 hmem)
        · exact .inr (.inr (.inr ⟨site, j, hj, condition, target, before, r, hop, hbefore, hr,
            hlocals, .inl hmem⟩))
        · exact .inl (by rw [wovenInstr_op, hmem]; rfl)
      · refine .inr (.inr (.inr ⟨site, j, hj, condition, target, before, r, hop, hbefore, hr,
          hlocals, .inr ⟨y.destination target, ?_⟩⟩))
        rw [hinstr]
        rfl
  · rcases h.closing with hclosing | ⟨l, mark, l', hmark, hclosing⟩
    · rw [hclosing] at he
      cases he
    · rw [hclosing] at he
      simp only [List.mem_cons, List.not_mem_nil, or_false] at he
      rcases he with rfl | rfl
      · exact .inl hmark
      · exact .inr (.inl rfl)

/-- Weaving leaves a regular body regular, if it passes the check. -/
theorem Layout.Weaves.regular {y : Layout} {b b' : Body} (h : y.Weaves b b') (hb : b.Regular)
    (hconsistent : b'.defect? = none) : b'.Regular := by
  refine ⟨hconsistent, fun i hi n hn => ?_, fun i hi => ?_⟩
  · rcases h.op_cases hi with hmark | hret | ⟨j, hj, hop⟩ |
      ⟨site, j, hj, condition, target, before, s, hop, hbefore, hs, hlocals, hcases⟩
    · rw [Operation.names_of_isMark hmark] at hn
      cases hn
    · rw [hret] at hn
      cases hn
    · rw [hop, Operation.names_retarget] at hn
      exact (hb.declares j hj n hn).mono h.locals
    · have hnames := hb.declares j hj
      rw [hop] at hnames
      have hscript := namesDeclared_of_script hs fun m hm => (hnames m hm).mono hbefore
      rcases hcases with hmem | ⟨t, heq⟩
      · exact (hscript.ops i.op hmem n hn).mono hlocals
      · rw [heq] at hn
        exact (hscript.rest n hn).mono hlocals
  · rcases h.op_cases hi with hmark | hret | ⟨j, hj, hop⟩ |
      ⟨site, j, hj, condition, target, before, s, hop, hbefore, hs, hlocals, hcases⟩
    · exact Operation.negatesBooleans_of_target?_none (Operation.target?_of_isMark hmark)
    · rw [hret]
      trivial
    · rw [hop, Operation.negatesBooleans_retarget]
      exact hb.negates j hj
    · rcases hcases with hmem | ⟨t, heq⟩
      · have hpart := isPart_of_mem_script hs i.op hmem
        exact Operation.negatesBooleans_of_target?_none hpart.target?_eq
      · rw [heq]
        exact negatesBooleans_rest_of_script hs

end TraceWeave
