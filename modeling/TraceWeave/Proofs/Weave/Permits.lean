import TraceWeave.Proofs.Weave.Upkeep

/-!
# Operations that weaving permits

Some properties that all operations of a body have are kept by weaving: the probes and assignments
that it inserts have them because they are made from the operations that were there.  A `Permit` is
such a property, with what it asks of expressions and variables, and `Permit.applyAll` says that
weavers keep it.
-/

namespace TraceWeave

/-- What operations, expressions and variables may be in a source file.  Whatever line, condition
and field probes are made from things that are permitted is permitted too. -/
structure Permit (file : String) where
  /-- The operations that are permitted. -/
  op : Operation → Prop
  /-- The expressions that are permitted. -/
  expr : Expr → Prop
  /-- The variables that are permitted. -/
  var : Local → Prop
  /-- Jumps may be turned. -/
  retarget : ∀ {o} (f : Label → Label), op o → op (o.retarget f)
  /-- A branch is permitted if its condition is. -/
  branch_iff : ∀ {e t}, op (.branch e t) ↔ expr e
  /-- A read of a variable is permitted if the variable is. -/
  var_iff : ∀ {x}, expr (.var x) ↔ var x
  /-- The parts of a unary node are permitted. -/
  of_unary : ∀ {o e}, expr (.unary o e) → expr e
  /-- The parts of a binary node are permitted. -/
  of_binary : ∀ {o l r}, expr (.binary o l r) → expr l ∧ expr r
  /-- A unary node over a variable may be computed by itself. -/
  unaryOver : ∀ {o x}, var x → expr (Decomposition.unaryOver o x)
  /-- A binary node may be computed over variables. -/
  binary : ∀ {o x y}, var x → var y → expr (.binary o (.var x) (.var y))
  /-- An expression may be computed into a temporary. -/
  temporary : ∀ {e n}, expr e → var { name := Body.temporaryName n, ty := e.ty }
  /-- An expression may be assigned to a variable. -/
  assign : ∀ {x e}, var x → expr e → op (.assign (.var x) e)
  /-- A variable may be captured. -/
  capture : ∀ {line x source}, var x → op (.probe (.capture file line x source))
  /-- A node of a condition may be reported with its operands. -/
  condition : ∀ {line index x o y}, var x → var y →
    op (.probe (.condition file line index x.name o y.name))
  /-- A line may be reported. -/
  lineReached : ∀ {line}, op (.probe (.lineReached file line))
  /-- A branch may be reported. -/
  branchReached : ∀ {line index}, op (.probe (.branchReached file line index))
  /-- A field may be reported that is read in an assignment. -/
  fieldRead : ∀ {place value f line}, op (.assign place value) → f ∈ value.fieldReads →
    op (.probe (.fieldRead file line f.qualifiedName))

namespace Permit

variable {file : String} (D : Permit file)

/-! ## Scripts -/

section

variable {site : BranchSite} (hfile : site.file = file)

include hfile

theorem held {ops : List Operation} {value : Expr} {source : Source} {locals : List Local}
    (hops : ∀ op ∈ ops, D.op op) (hvalue : D.expr value) :
    (∀ op ∈ (Script.held site ops value source locals).ops, D.op op) ∧
      D.var (Script.held site ops value source locals).var := by
  have hx : D.var (Script.freshIn locals value.ty) := D.temporary hvalue
  refine ⟨fun op hop => ?_, hx⟩
  simp only [Script.held, List.mem_append, List.mem_cons, List.not_mem_nil, or_false] at hop
  rcases hop with hop | rfl | rfl
  · exact hops op hop
  · exact D.assign hx hvalue
  · exact hfile ▸ D.capture hx

theorem operand {s : Script} (hops : ∀ op ∈ s.ops, D.op op) (hrest : D.expr s.rest) :
    (∀ op ∈ (s.operand site).ops, D.op op) ∧ D.var (s.operand site).var := by
  rcases s.operand_cases site with ⟨x, hx, hs⟩ | ⟨-, hs⟩ <;> rw [hs]
  · exact ⟨hops, D.var_iff.1 (hx ▸ hrest)⟩
  · exact D.held hfile hops hrest

/-- What a permitted expression is decomposed into is permitted. -/
theorem script {e : Expr} {locals : List Local} {s : Script} (he : D.expr e)
    (h : TraceWeave.script site e locals = .ok s) :
    (∀ op ∈ s.ops, D.op op) ∧ D.expr s.rest := by
  induction e generalizing locals s with
  | value v =>
    cases h
    obtain ⟨hops, hx⟩ := D.held hfile (fun _ hop => absurd hop List.not_mem_nil) he
    exact ⟨hops, D.var_iff.2 hx⟩
  | var x =>
    cases h
    refine ⟨fun op hop => ?_, he⟩
    rw [List.mem_singleton.1 hop]
    exact hfile ▸ D.capture (D.var_iff.1 he)
  | unary op e ih =>
    obtain ⟨t, ht, rfl⟩ := script_unary_eq_ok h
    obtain ⟨hops, hrest⟩ := ih (D.of_unary he) ht
    obtain ⟨hops, hx⟩ := D.operand hfile hops hrest
    obtain ⟨hops, hy⟩ := D.held hfile hops (D.unaryOver hx)
    exact ⟨hops, D.var_iff.2 hy⟩
  | binary op l r ihl ihr =>
    obtain ⟨t, u, -, ht, hu, rfl⟩ := script_binary_eq_ok h
    have hparts := D.of_binary he
    obtain ⟨hops, hrest⟩ := ihl hparts.1 ht
    obtain ⟨hops', hrest'⟩ := ihr hparts.2 hu
    obtain ⟨hops, hx⟩ := D.operand hfile hops hrest
    obtain ⟨hops', hy⟩ := D.operand hfile hops' hrest'
    refine ⟨fun o ho => ?_, D.binary hx hy⟩
    simp only [Script.ofBinary, List.mem_append, List.mem_singleton] at ho
    rcases ho with (ho | ho) | rfl
    · exact hops o ho
    · exact hops' o ho
    · exact hfile ▸ D.condition hx hy
  | call callee args _ =>
    cases h
    obtain ⟨hops, hx⟩ := D.held hfile (fun _ hop => absurd hop List.not_mem_nil) he
    exact ⟨hops, D.var_iff.2 hx⟩
  | field f => cases h
  | unmapped description ty => cases h

end

/-- What is permitted is kept up by weaving; any variables may be declared. -/
def upkeep : Upkeep file where
  op := D.op
  var _ := True
  retarget := D.retarget
  script hfile he _ h :=
    have hscript := D.script hfile (D.branch_iff.1 he) h
    ⟨hscript.1, D.branch_iff.2 hscript.2, fun _ _ => trivial⟩
  lineReached := D.lineReached
  branchReached := D.branchReached
  fieldRead := D.fieldRead

/-- What a weaver of test markers needs a permit for. -/
structure Markers (D : Permit file) (test : String) : Prop where
  start : D.op (.probe (.testStart test))
  finish : D.op (.probe (.testEnd test))
  ret : D.op (.ret none)

/-- Weavers keep what is permitted, if those of markers have a permit for these. -/
theorem applyAll {plan : Plan} {target : MethodTarget} (hfile : target.file = file)
    {weavers : List Weaver} (hmarkers : .lifecycle ∈ weavers → D.Markers target.signature)
    {w w' : Workpiece} {outcomes : List Outcome}
    (h : plan.applyAll target weavers w = .ok (outcomes, w')) (hw : w.body.All D.op) :
    w'.body.All D.op := by
  have hkeeps := D.upkeep.applyAll hfile (fun hmem =>
    have hmarkers := hmarkers hmem
    ⟨hmarkers.start, hmarkers.finish, hmarkers.ret⟩) h ⟨hw, fun _ _ => trivial⟩
  exact hkeeps.ops

end Permit

end TraceWeave
