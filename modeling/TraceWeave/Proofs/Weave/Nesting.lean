import TraceWeave.Proofs.ClassFile.Nesting
import TraceWeave.Proofs.Expr.Typing
import TraceWeave.Proofs.Weave.Preservation
import TraceWeave.Proofs.Weave.Upkeep

/-!
# How deep woven classes are

Decomposing a condition takes it apart, so nothing that weaving writes is nested more deeply than
the conditions were: what is left of an expression has the type of the expression
(`Script.ty_rest`), and a branch leaves room for assignments, captures and comparisons with zero.  A
class that readers take is woven into one that is no deeper than they allow
(`Plan.depth_weaveRuns`).
-/

namespace TraceWeave

open Json

variable {levels : Nat}

/-! ## Types of scripts -/

namespace Script

variable {site : BranchSite}

/-- A variable holds an operand of its type. -/
theorem ty_operand (site : BranchSite) (s : Script) : (s.operand site).var.ty = s.rest.ty := by
  rcases s.operand_cases site with ⟨x, hx, hs⟩ | ⟨-, hs⟩
  · rw [hs, hx]
    rfl
  · rw [hs]
    rfl

theorem ty_unaryOver (op : UnaryOp) (x : Local) :
    (Decomposition.unaryOver op x).ty = op.resultTy x.ty := by
  cases op <;> rfl

/-- What is left of an expression has its type. -/
theorem ty_rest {e : Expr} {locals : List Local} {s : Script} (h : script site e locals = .ok s) :
    s.rest.ty = e.ty := by
  induction e generalizing locals s with
  | unary op e ih =>
    obtain ⟨t, ht, rfl⟩ := script_unary_eq_ok h
    change (Decomposition.unaryOver op (t.operand site).var).ty = _
    rw [ty_unaryOver, Expr.ty_unary, ty_operand, ih ht]
  | binary op l r ihl ihr =>
    obtain ⟨t, u, -, ht, hu, rfl⟩ := script_binary_eq_ok h
    change (Expr.binary op (.var (t.operand site).var) (.var (u.operand site).var)).ty = _
    rw [Expr.ty_binary, Expr.ty_binary, ← ihl ht, ← ihr hu, ← t.ty_operand site,
      ← u.ty_operand site]
    rfl
  | field f => cases h
  | unmapped description ty => cases h
  | _ =>
    cases h
    rfl

end Script

/-! ## The parts of documents -/

theorem Local.depth_toJson_le {x : Local} :
    x.toJson.depth ≤ levels + 1 ↔ x.ty.toJson.depth ≤ levels :=
  depth_record_succ.trans (and_iff_right (Nat.zero_le levels))

namespace Expr

/-- The document of an expression is no deeper than some levels. -/
def Within (levels : Nat) (e : Expr) : Prop := (e.toJson .file).depth ≤ levels

theorem within_var {x : Local} :
    (var x).Within (levels + 2) ↔ x.ty.toJson.depth ≤ levels :=
  depth_record_succ.trans Local.depth_toJson_le

theorem within_value (v : Value) : (value v).Within (levels + 2) :=
  depth_record_succ.2 v.depth_toJson_le

theorem within_unary {op : UnaryOp} {e : Expr} :
    (unary op e).Within (levels + 2) ↔ e.Within levels :=
  depth_variant_record.trans (and_iff_right (Nat.zero_le levels))

theorem within_binary {op : BinaryOp} {l r : Expr} :
    (binary op l r).Within (levels + 2) ↔ l.Within levels ∧ r.Within levels :=
  depth_variant_record.trans (and_iff_right (Nat.zero_le levels))

theorem Within.mono {e : Expr} {more : Nat} (h : e.Within levels) (hle : levels ≤ more) :
    e.Within more := Nat.le_trans h hle

theorem depth_ty_value (v : Value) : v.ty.toJson.depth ≤ levels + 1 := by
  cases v <;> first | exact Nat.zero_le _ | exact Nat.le_add_left 1 levels

theorem depth_promoteUnary (t : Ty) : t.promoteUnary.toJson.depth = 0 := by
  cases t <;> rfl

theorem depth_promote (t u : Ty) : (t.promote u).toJson.depth = 0 := by
  cases t <;> cases u <;> rfl

/-- The type of an expression stands in it, or is the type of a constant or of an operator. -/
theorem Within.ty {e : Expr} (h : e.Within (levels + 3)) : e.ty.toJson.depth ≤ levels + 1 := by
  cases e with
  | value v => exact depth_ty_value v
  | var x => exact within_var.1 h
  | unary op e =>
    cases op with
    | not => exact Nat.zero_le _
    | neg => exact (depth_promoteUnary e.ty).le.trans (Nat.zero_le _)
    | bitNot => exact (depth_promoteUnary e.ty).le.trans (Nat.zero_le _)
  | binary op l r =>
    have hty : (binary op l r).ty.toJson.depth = 0 := by
      rw [Expr.ty]
      split
      · rfl
      · split
        · rfl
        · split
          · exact depth_promoteUnary l.ty
          · exact depth_promote l.ty r.ty
    exact hty.le.trans (Nat.zero_le _)
  | call callee args =>
    have hcallee := (depth_variant_record.1 h).1
    exact Nat.le_succ_of_le (depth_record_succ.1 hcallee).2.2
  | field f => exact (depth_variant_record.1 h).2.2
  | unmapped description ty => exact (depth_variant_record.1 h).2

end Expr

namespace Operation

/-- The document of an operation is no deeper than some levels. -/
def Within (levels : Nat) (op : Operation) : Prop := (op.toJson .file).depth ≤ levels

theorem within_branch {condition : Expr} {target : Label} :
    (branch condition target).Within (levels + 2) ↔ condition.Within levels :=
  depth_variant_record.trans
    (and_iff_left target.depth_toJson_le)

theorem within_assign {x : Local} {value : Expr} :
    (assign (.var x) value).Within (levels + 4) ↔
      x.ty.toJson.depth ≤ levels ∧ value.Within (levels + 2) :=
  depth_variant_record.trans
    (and_congr_left' (depth_record_succ.trans Local.depth_toJson_le))

theorem within_capture {file : String} {line : UInt32} {x : Local} {source : Source}
    (h : x.ty.toJson.depth ≤ levels) :
    (probe (.capture file line x source)).Within (levels + 4) :=
  depth_record_succ.2 (depth_variant_record.2
    ⟨Nat.zero_le _, Nat.zero_le _, Local.depth_toJson_le.2 h, Nat.zero_le _⟩)

theorem within_probe {p : Probe} (h : ∀ file line x source, p ≠ .capture file line x source) :
    (probe p).Within (levels + 3) :=
  depth_record_succ.2 (Probe.depth_toJson_le h)

theorem within_retarget {f : Label → Label} {op : Operation} (h : op.Within levels) :
    (op.retarget f).Within levels := by
  cases op <;> exact h

end Operation

/-! ## Scripts -/

/-- The document of a variable is no deeper than some levels, not counting its own. -/
def Local.Within (levels : Nat) (x : Local) : Prop := x.ty.toJson.depth ≤ levels

/-- What a script writes is no deeper than a branch over the expression that it decomposes, if this
has room for the comparison of a variable with zero. -/
structure Script.Within (levels : Nat) (s : Script) : Prop where
  ops : ∀ op ∈ s.ops, op.Within (levels + 7)
  rest : s.rest.Within (levels + 5)
  locals : ∀ x ∈ s.locals, x.Within (levels + 7)

/-- What is written for an operand is no deeper either. -/
structure Operand.Within (levels : Nat) (o : Operand) : Prop where
  ops : ∀ op ∈ o.ops, op.Within (levels + 7)
  locals : ∀ x ∈ o.locals, x.Within (levels + 7)

namespace Script

variable {site : BranchSite}

theorem within_held {ops : List Operation} {value : Expr} {source : Source} {locals : List Local}
    (hops : ∀ op ∈ ops, op.Within (levels + 7)) (hvalue : value.Within (levels + 5))
    (hlocals : ∀ x ∈ locals, x.Within (levels + 7)) :
    (held site ops value source locals).Within levels := by
  have hty : value.ty.toJson.depth ≤ levels + 3 := hvalue.ty
  refine ⟨fun op hop => ?_, fun x hx => ?_⟩
  · simp only [held, List.mem_append, List.mem_cons, List.not_mem_nil, or_false] at hop
    rcases hop with hop | rfl | rfl
    · exact hops op hop
    · exact Operation.within_assign.2 ⟨hty, hvalue⟩
    · exact Operation.within_capture hty
  · rcases List.mem_append.1 hx with hx | hx
    · exact hlocals x hx
    · rw [List.mem_singleton.1 hx]
      exact hty.trans (Nat.le_add_right _ 4)

theorem Within.operand {s : Script} (h : s.Within levels) : (s.operand site).Within levels := by
  rcases s.operand_cases site with ⟨x, -, hs⟩ | ⟨-, hs⟩ <;> rw [hs]
  · exact ⟨h.ops, h.locals⟩
  · exact within_held h.ops h.rest h.locals

theorem within_ofOperand {o : Operand} (h : o.Within levels)
    (hvar : o.var.ty.toJson.depth ≤ levels + 3) : (ofOperand o).Within levels :=
  ⟨h.ops, Expr.within_var.2 hvar, h.locals⟩

theorem within_unaryOver {op : UnaryOp} {x : Local} (h : x.ty.toJson.depth ≤ levels) :
    (Decomposition.unaryOver op x).Within (levels + 4) := by
  have hx : (Expr.var x).Within (levels + 2) := Expr.within_var.2 h
  cases op with
  | not => exact Expr.within_binary.2 ⟨hx, Expr.within_value _⟩
  | neg => exact Expr.within_unary.2 hx
  | bitNot => exact Expr.within_unary.2 hx

/-- The variable of an operand, of the type that the expression has. -/
theorem depth_ty_operand {e : Expr} {locals : List Local} {s : Script}
    (h : script site e locals = .ok s) (he : e.Within (levels + 3)) :
    (s.operand site).var.ty.toJson.depth ≤ levels + 1 := by
  rw [ty_operand, ty_rest h]
  exact he.ty

end Script

theorem Expr.Within.script {site : BranchSite} {e : Expr} {locals : List Local} {s : Script}
    (he : e.Within (levels + 5)) (hlocals : ∀ x ∈ locals, x.Within (levels + 7))
    (h : TraceWeave.script site e locals = .ok s) : s.Within levels := by
  induction e generalizing locals s with
  | value v =>
    cases h
    exact Script.within_ofOperand (Script.within_held (by simp) he hlocals) he.ty
  | var x =>
    cases h
    have hx : x.ty.toJson.depth ≤ levels + 3 := Expr.within_var.1 he
    refine ⟨fun op hop => ?_, he, hlocals⟩
    rw [List.mem_singleton.1 hop]
    exact Operation.within_capture hx
  | unary op e ih =>
    obtain ⟨t, ht, rfl⟩ := script_unary_eq_ok h
    have hpart : e.Within (levels + 3) := Expr.within_unary.1 he
    have hoperand : (t.operand site).Within levels :=
      (ih (hpart.mono (Nat.le_add_right _ 2)) hlocals ht).operand
    have hvalue : (Decomposition.unaryOver op (t.operand site).var).Within (levels + 5) :=
      Script.within_unaryOver (Script.depth_ty_operand ht hpart)
    exact Script.within_ofOperand
      (Script.within_held hoperand.ops hvalue hoperand.locals) hvalue.ty
  | binary op l r ihl ihr =>
    obtain ⟨t, u, -, ht, hu, rfl⟩ := script_binary_eq_ok h
    obtain ⟨hl, hr⟩ : l.Within (levels + 3) ∧ r.Within (levels + 3) := Expr.within_binary.1 he
    have hx : (t.operand site).Within levels :=
      (ihl (hl.mono (Nat.le_add_right _ 2)) hlocals ht).operand
    have hy : (u.operand site).Within levels :=
      (ihr (hr.mono (Nat.le_add_right _ 2)) hx.locals hu).operand
    refine ⟨fun o ho => ?_, ?_, hy.locals⟩
    · simp only [Script.ofBinary, List.mem_append, List.mem_singleton] at ho
      rcases ho with (ho | ho) | rfl
      · exact hx.ops o ho
      · exact hy.ops o ho
      · exact Operation.within_probe fun _ _ _ _ => Probe.noConfusion
    · exact Expr.within_binary.2 ⟨Expr.within_var.2 (Script.depth_ty_operand ht hl),
        Expr.within_var.2 (Script.depth_ty_operand hu hr)⟩
  | call callee args _ =>
    cases h
    exact Script.within_ofOperand (Script.within_held (by simp) he hlocals) he.ty
  | field f => cases h
  | unmapped description ty => cases h

/-! ## Weaving -/

/-- Operations and variables whose documents are no deeper than some levels. -/
def Upkeep.within (file : String) (levels : Nat) : Upkeep file where
  op := Operation.Within (levels + 7)
  var := Local.Within (levels + 7)
  retarget _ h := Operation.within_retarget h
  script _ hop hlocals h := by
    have hscript := (Operation.within_branch.1 hop).script hlocals h
    exact ⟨hscript.ops, Operation.within_branch.2 hscript.rest, hscript.locals⟩
  lineReached := Operation.within_probe fun _ _ _ _ => Probe.noConfusion
  branchReached := Operation.within_probe fun _ _ _ _ => Probe.noConfusion
  fieldRead _ _ := Operation.within_probe fun _ _ _ _ => Probe.noConfusion

theorem Instr.depth_toJson_le {i : Instr} :
    (i.toJson .file).depth ≤ levels + 1 ↔ i.op.Within levels := by
  refine ⟨fun h => (depth_record_succ.1 h).2.2, fun h => depth_record_succ.2 ?_⟩
  exact ⟨i.label.depth_toJson_le, Nat.zero_le _, h⟩

/-- The document of a body has three levels above those of its operations and variables. -/
theorem Body.depth_toJson_le {file : String} {b : Body} :
    (b.toJson .file).depth ≤ levels + 10 ↔ (Upkeep.within file levels).Holds b := by
  have hlocals : (Json.array (b.locals.map Local.toJson)).depth ≤ levels + 9 ↔
      ∀ x ∈ b.locals, x.Within (levels + 7) := by
    rw [depth_array_succ, List.forall_mem_map]
    exact forall₂_congr fun x _ => Local.depth_toJson_le
  have hinstrs : (Json.array (b.instrs.map (Instr.toJson .file))).depth ≤ levels + 9 ↔
      b.All (Operation.Within (levels + 7)) := by
    rw [depth_array_succ, List.forall_mem_map]
    exact forall₂_congr fun i _ => Instr.depth_toJson_le
  refine depth_record_succ.trans ⟨fun h => ⟨hinstrs.1 h.2, hlocals.1 h.1⟩, fun h => ?_⟩
  exact ⟨hlocals.2 h.locals, hinstrs.2 h.ops⟩

namespace Plan

variable (plan : Plan) (weavers : List Weaver)

theorem depth_weaveMethod (c : Class) {m : Method} (s : Session)
    (h : (m.toJson .file).depth ≤ levels + 11) :
    ((plan.weaveMethod weavers c m s).1.toJson .file).depth ≤ levels + 11 := by
  unfold weaveMethod
  split
  · exact h
  · next outcomes w happly =>
    obtain ⟨hname, hparams, hty, hbody⟩ := depth_record_succ.1 h
    refine depth_record_succ.2 ⟨hname, hparams, hty, ?_⟩
    have hmarkers : (Upkeep.within c.sourcePath levels).Markers (MethodTarget.of c m).signature :=
      { start := Operation.within_probe fun _ _ _ _ => Probe.noConfusion
        finish := Operation.within_probe fun _ _ _ _ => Probe.noConfusion
        ret := depth_record_succ.2 (Nat.zero_le _) }
    exact Body.depth_toJson_le.2 ((Upkeep.within c.sourcePath levels).applyAll rfl
      (fun _ => hmarkers) happly (Body.depth_toJson_le.1 hbody))

theorem depth_weave (p : Program) (s : Session) :
    List.Forall₂ (fun c c' : Class =>
        (c.toJson .file).depth ≤ levels + 13 → (c'.toJson .file).depth ≤ levels + 13)
      p.classes (plan.weave weavers p s).1.classes := by
  have hcorresponds : List.Forall₂ (Class.Corresponds fun _ m m' =>
      (m.toJson .file).depth ≤ levels + 11 → (m'.toJson .file).depth ≤ levels + 11) p.classes
      (plan.weave weavers p s).1.classes :=
    weave_corresponds fun c _ _ _ s' _ => plan.depth_weaveMethod weavers c s'
  refine hcorresponds.imp fun c c' ⟨heq, hmethods⟩ h => ?_
  obtain ⟨hname, hfile, hfields, hold⟩ := depth_record_succ.1 h
  rw [heq]
  refine depth_record_succ.2 ⟨hname, hfile, hfields, depth_array_succ.2 ?_⟩
  rw [List.forall_mem_map]
  intro m' hm'
  obtain ⟨m, hm, hdepth⟩ := exists_of_mem_forall₂ hmethods hm'
  exact hdepth (List.forall_mem_map.1 (depth_array_succ.1 hold) m hm)

end Plan

/-- A class that readers take is woven into classes that are no deeper than they allow. -/
theorem Plan.depth_weaveRuns (runs : List (Plan × List Weaver)) (p : Program) (s : Session) :
    List.Forall₂ (fun c c' : Class =>
        (c.toJson .file).depth ≤ maxNesting → (c'.toJson .file).depth ≤ maxNesting)
      p.classes (weaveRuns runs p s).1.classes :=
  weaveRuns_forall₂ (fun _ => id) (fun _ _ _ h h' hc => h' (h hc))
    (@depth_weave 114) runs p s

end TraceWeave
