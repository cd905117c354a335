import TraceWeave.Proofs.Expr.Induction
import TraceWeave.Proofs.Weave.Edits
import TraceWeave.Weave.Condition

/-!
# Scripts of decompositions

`Decomposition.decompose` inserts the decomposition of a condition into a body as it goes through
the condition.  A `Script` is the same work without the body: the operations that are inserted, one
after another, what is left of the condition, and the variables that are declared by then.
`script` computes it, and `decompose_inserts` says that decomposing inserts exactly the script
before the anchor.  What a decomposition means is then a matter of running scripts.
-/

namespace TraceWeave

/-- The calls of an expression that stand in no other call, from left to right. -/
def Expr.outermostCalls : Expr → List Expr
  | .call callee args => [.call callee args]
  | .unary _ e => e.outermostCalls
  | .binary _ l r => l.outermostCalls ++ r.outermostCalls
  | .value _ | .var _ | .field _ | .unmapped _ _ => []

/-- What the decomposition of an expression inserts and leaves. -/
structure Script where
  /-- The inserted operations, in program order. -/
  ops : List Operation
  /-- What is left of the expression. -/
  rest : Expr
  /-- The variables that are declared afterwards. -/
  locals : List Local

/-- A script after which the value of the expression is in a variable. -/
structure Operand where
  /-- The inserted operations, in program order. -/
  ops : List Operation
  /-- The variable that holds the value. -/
  var : Local
  /-- The variables that are declared afterwards. -/
  locals : List Local

namespace Script

variable (site : BranchSite)

/-- The fresh temporary of a type where some variables are declared. -/
def freshIn (locals : List Local) (ty : Ty) : Local := ({ locals } : Body).freshLocal ty

/-- Captures a variable. -/
def captureOp (x : Local) (source : Source) : Operation :=
  .probe (.capture site.file site.line x source)

/-- Reports the operator and the operands of a binary node. -/
def conditionOp (x : Local) (op : BinaryOp) (y : Local) : Operation :=
  .probe (.condition site.file site.line site.index x.name op y.name)

/-- Reports the branch. -/
def reachedOp : Operation := .probe (.branchReached site.file site.line site.index)

/-- Puts a value into a fresh temporary and captures it. -/
def held (ops : List Operation) (value : Expr) (source : Source) (locals : List Local) :
    Operand :=
  let x := freshIn locals value.ty
  { ops := ops ++ [.assign (.var x) value, captureOp site x source], var := x,
    locals := locals ++ [x] }

/-- The script that leaves the variable of an operand. -/
def ofOperand (o : Operand) : Script := { ops := o.ops, rest := .var o.var, locals := o.locals }

/-- The operand that a script computes: a compound rest is put into a temporary. -/
def operand (s : Script) : Operand :=
  match s.rest with
  | .var x => { ops := s.ops, var := x, locals := s.locals }
  | e => held site s.ops e .variable s.locals

/-- The script of a binary node over two operands, the second computed after the first. -/
def ofBinary (op : BinaryOp) (x y : Operand) : Script :=
  { ops := x.ops ++ y.ops ++ [conditionOp site x.var op y.var]
    rest := .binary op (.var x.var) (.var y.var)
    locals := y.locals }

/-- The script of a unary node over an operand. -/
def ofUnary (op : UnaryOp) (x : Operand) : Script :=
  ofOperand (held site x.ops (Decomposition.unaryOver op x.var) .variable x.locals)

/-- An operand is the variable that was left, or a fresh temporary. -/
theorem operand_cases (s : Script) :
    (∃ x, s.rest = .var x ∧ s.operand site = { ops := s.ops, var := x, locals := s.locals }) ∨
      (∀ x, s.rest ≠ .var x) ∧ s.operand site = held site s.ops s.rest .variable s.locals := by
  unfold operand
  cases hs : s.rest with
  | var x => exact .inl ⟨x, rfl, rfl⟩
  | _ => exact .inr ⟨by simp, rfl⟩

theorem operand_locals (s : Script) : s.locals <+: (s.operand site).locals := by
  rcases s.operand_cases site with ⟨x, -, hs⟩ | ⟨-, hs⟩
  · exact hs ▸ List.prefix_rfl
  · exact hs ▸ List.prefix_append _ _

end Script

/-- The script of an expression, or the first of its nodes that cannot be decomposed. -/
def script (site : BranchSite) : Expr → List Local → Except IndivisibleNode Script
  | .var x, locals =>
    .ok { ops := [Script.captureOp site x .variable], rest := .var x, locals }
  | .value v, locals => .ok (.ofOperand (Script.held site [] (.value v) .constant locals))
  | .call callee args, locals =>
    .ok (.ofOperand (Script.held site [] (.call callee args) .variable locals))
  | .binary op l r, locals =>
    if op.isThreeWay then .error (.operator op)
    else
      match script site l locals with
      | .error node => .error node
      | .ok s =>
        let x := s.operand site
        match script site r x.locals with
        | .error node => .error node
        | .ok t => .ok (.ofBinary site op x (t.operand site))
  | .unary op e, locals =>
    match script site e locals with
    | .error node => .error node
    | .ok s => .ok (.ofUnary site op (s.operand site))
  | .field f, _ => .error (.fieldRead f)
  | .unmapped description _, _ => .error (.unmapped description)

theorem script_unary_eq_ok {site : BranchSite} {op : UnaryOp} {e : Expr} {locals : List Local}
    {s : Script} (h : script site (.unary op e) locals = .ok s) :
    ∃ t, script site e locals = .ok t ∧ s = .ofUnary site op (t.operand site) := by
  rw [script] at h
  cases he : script site e locals with
  | error node => simp [he] at h
  | ok t =>
    simp only [he] at h
    cases h
    exact ⟨t, rfl, rfl⟩

theorem script_binary_eq_ok {site : BranchSite} {op : BinaryOp} {l r : Expr}
    {locals : List Local} {s : Script} (h : script site (.binary op l r) locals = .ok s) :
    ∃ t u, op.isThreeWay = false ∧ script site l locals = .ok t ∧
      script site r (t.operand site).locals = .ok u ∧
      s = .ofBinary site op (t.operand site) (u.operand site) := by
  rw [script] at h
  split at h
  · cases h
  · next hop =>
    cases hl : script site l locals with
    | error node => simp [hl] at h
    | ok t =>
      cases hr : script site r (t.operand site).locals with
      | error node => simp [hl, hr] at h
      | ok u =>
        simp only [hl, hr] at h
        cases h
        exact ⟨t, u, by simpa using hop, rfl, hr, rfl⟩

/-- A script only adds to the declared variables. -/
theorem script_locals {site : BranchSite} {e : Expr} {locals : List Local} {s : Script}
    (h : script site e locals = .ok s) : locals <+: s.locals := by
  induction e generalizing locals s with
  | value v => cases h; exact List.prefix_append _ _
  | var x => cases h; exact List.prefix_rfl
  | call callee args => cases h; exact List.prefix_append _ _
  | unary op e ih =>
    obtain ⟨t, ht, rfl⟩ := script_unary_eq_ok h
    exact ((ih ht).trans (t.operand_locals site)).trans (List.prefix_append _ _)
  | binary op l r ihl ihr =>
    obtain ⟨t, u, -, ht, hu, rfl⟩ := script_binary_eq_ok h
    exact (((ihl ht).trans (t.operand_locals site)).trans (ihr hu)).trans (u.operand_locals site)
  | field f => cases h
  | unmapped description ty => cases h

theorem script_operand_locals {site : BranchSite} {e : Expr} {locals : List Local} {s : Script}
    (h : script site e locals = .ok s) : locals <+: (s.operand site).locals :=
  (script_locals h).trans (s.operand_locals site)

/-- Only of a binary node is more left than a variable. -/
theorem script_rest_cases {site : BranchSite} {e : Expr} {locals : List Local} {s : Script}
    (h : script site e locals = .ok s) :
    (∃ op l r, e = .binary op l r) ∨ (∀ op l r, e ≠ .binary op l r) ∧ ∃ x, s.rest = .var x := by
  cases e with
  | value v => cases h; exact .inr ⟨nofun, _, rfl⟩
  | var x => cases h; exact .inr ⟨nofun, _, rfl⟩
  | call callee args => cases h; exact .inr ⟨nofun, _, rfl⟩
  | unary op e =>
    obtain ⟨t, -, rfl⟩ := script_unary_eq_ok h
    exact .inr ⟨nofun, _, rfl⟩
  | binary op l r => exact .inl ⟨op, l, r, rfl⟩
  | field f => cases h
  | unmapped description ty => cases h

/-- What a script consists of: assignments to variables, captures and reports of binary nodes. -/
def Operation.IsPart (site : BranchSite) (op : Operation) : Prop :=
  (∃ x value, op = .assign (.var x) value) ∨ (∃ x source, op = Script.captureOp site x source) ∨
    ∃ x binary y, op = Script.conditionOp site x binary y

theorem Operation.IsPart.target?_eq {site : BranchSite} {op : Operation} (h : op.IsPart site) :
    op.target? = none := by
  rcases h with ⟨x, value, rfl⟩ | ⟨x, source, rfl⟩ | ⟨x, binary, y, rfl⟩ <;> rfl

theorem isPart_of_mem_script {site : BranchSite} {e : Expr} {locals : List Local} {s : Script}
    (h : script site e locals = .ok s) : ∀ op ∈ s.ops, op.IsPart site := by
  have hheld : ∀ ops value source locals, (∀ op ∈ ops, Operation.IsPart site op) →
      ∀ op ∈ (Script.held site ops value source locals).ops, op.IsPart site := by
    intro ops value source locals hops op hop
    simp only [Script.held, List.mem_append, List.mem_cons, List.not_mem_nil, or_false] at hop
    rcases hop with hop | rfl | rfl
    · exact hops op hop
    · exact .inl ⟨_, _, rfl⟩
    · exact .inr (.inl ⟨_, _, rfl⟩)
  have hoperand : ∀ s : Script, (∀ op ∈ s.ops, op.IsPart site) →
      ∀ op ∈ (s.operand site).ops, op.IsPart site := by
    intro s hops
    rcases s.operand_cases site with ⟨x, -, hs⟩ | ⟨-, hs⟩ <;> rw [hs]
    · exact hops
    · exact hheld _ _ _ _ hops
  induction e generalizing locals s with
  | value v => cases h; exact hheld _ _ _ _ (by simp)
  | var x =>
    cases h
    intro op hop
    exact .inr (.inl ⟨x, .variable, List.mem_singleton.1 hop⟩)
  | call callee args => cases h; exact hheld _ _ _ _ (by simp)
  | unary op e ih =>
    obtain ⟨t, ht, rfl⟩ := script_unary_eq_ok h
    exact hheld _ _ _ _ (hoperand t (ih ht))
  | binary op l r ihl ihr =>
    obtain ⟨t, u, -, ht, hu, rfl⟩ := script_binary_eq_ok h
    intro op hop
    simp only [Script.ofBinary, List.mem_append, List.mem_singleton] at hop
    rcases hop with (hop | hop) | rfl
    · exact hoperand t (ihl ht) op hop
    · exact hoperand u (ihr hu) op hop
    · exact .inr (.inr ⟨_, _, _, rfl⟩)
  | field f => cases h
  | unmapped description ty => cases h

/-! ## Decomposing inserts the script -/

/-- A relation between the bodies before and after operations that do not jump are inserted before
an anchor.  It leaves the declared variables aside. -/
structure InsertionClosed (anchor : Label) (R : List Operation → Body → Body → Prop) : Prop where
  /-- Nothing is inserted. -/
  declare : ∀ {b b'}, b'.instrs = b.instrs → R [] b b'
  /-- One operation is inserted. -/
  insert : ∀ {b b' op}, op.target? = none → b.insertBefore? anchor op = some b' → R [op] b b'
  /-- Operations are inserted, and then more of them. -/
  trans : ∀ {ops ops' b b₁ b₂}, R ops b b₁ → R ops' b₁ b₂ → R (ops ++ ops') b b₂

theorem adds_insertionClosed (anchor : Label) :
    InsertionClosed anchor fun ops => Adds (onlyAt anchor ops) where
  declare h := (Adds.refl h).congr fun l => by simp [onlyAt]
  insert hop h := insertBefore_adds (u := ()) hop (by rw [insertBefore, h])
  trans h h' := (h.trans h').congr fun l => onlyAt_append _ _ _ l

namespace Decomposition

variable {d : Decomposition} {R : List Operation → Body → Body → Prop}
  (hR : InsertionClosed d.anchor R)

include hR

theorem capture_inserts {x : Local} {source : Source} {b b' : Body} {u : Unit}
    (h : d.capture x source b = .ok u b') :
    b'.locals = b.locals ∧ R [Script.captureOp d.site x source] b b' :=
  ⟨insertBefore_locals h, hR.insert rfl (insertBefore_eq_ok h)⟩

theorem materialize_inserts {value : Expr} {source : Source} {b b' : Body} {x : Local}
    (h : d.materialize value source b = .ok x b') (ops : List Operation) :
    x = (Script.held d.site ops value source b.locals).var ∧
      b'.locals = (Script.held d.site ops value source b.locals).locals ∧
      R [.assign (.var x) value, Script.captureOp d.site x source] b b' := by
  have hx : ({ locals := b.locals } : Body).freshLocal value.ty = b.freshLocal value.ty := rfl
  replace h := get_bind_eq_ok.1 h
  obtain ⟨⟨⟩, b₂, h₂, h⟩ := bind_eq_ok.1 h
  cases h₂
  obtain ⟨⟨⟩, b₃, hassign, h⟩ := bind_eq_ok.1 h
  obtain ⟨⟨⟩, b₄, hcapture, h⟩ := bind_eq_ok.1 h
  cases h
  obtain ⟨hlocals, hinserts⟩ := capture_inserts hR hcapture
  have hassign' := hR.insert rfl (insertBefore_eq_ok hassign)
  refine ⟨rfl, ?_, ?_⟩
  · rw [hlocals, insertBefore_locals hassign]
    rfl
  · have hdeclare : R [] b (b.addTemporary value.ty) := hR.declare rfl
    exact hR.trans hdeclare (hR.trans hassign' hinserts)

/-- What was inserted for an expression, together with what is inserted when an operand is made of
it, is the script of the operand. -/
theorem operandOf_inserts {s : Script} {b b₁ b₂ : Body} {x : Local} (hinserts : R s.ops b b₁)
    (hlocals : b₁.locals = s.locals) (h : d.operandOf s.rest b₁ = .ok x b₂) :
    x = (s.operand d.site).var ∧ b₂.locals = (s.operand d.site).locals ∧
      R (s.operand d.site).ops b b₂ := by
  rcases s.operand_cases d.site with ⟨y, hrest, hoperand⟩ | ⟨hrest, hoperand⟩
  · rw [hrest] at h
    cases h
    rw [hoperand]
    exact ⟨rfl, hlocals, hinserts⟩
  · have hmat : d.materialize s.rest .variable b₁ = .ok x b₂ := by
      rw [← h]
      cases hs : s.rest with
      | var y => exact absurd hs (hrest y)
      | _ => rfl
    obtain ⟨hx, hlocals₂, hinserts₂⟩ := materialize_inserts hR hmat s.ops
    rw [hlocals] at hx hlocals₂
    rw [hx] at hinserts₂
    rw [hoperand]
    exact ⟨hx, hlocals₂, hR.trans hinserts hinserts₂⟩

/-- Decomposing an expression inserts its script before the anchor. -/
theorem decompose_inserts {e rest : Expr} {b b' : Body} (h : d.decompose e b = .ok rest b') :
    ∃ s, script d.site e b.locals = .ok s ∧ s.rest = rest ∧ b'.locals = s.locals ∧
      R s.ops b b' := by
  induction e generalizing rest b b' with
  | value v =>
    obtain ⟨x, b₁, hmat, h⟩ := bind_eq_ok.1 h
    cases h
    obtain ⟨hx, hlocals, hinserts⟩ := materialize_inserts hR hmat []
    exact ⟨_, rfl, by rw [hx]; rfl, hlocals, by rw [hx] at hinserts; exact hinserts⟩
  | var x =>
    obtain ⟨⟨⟩, b₁, hcapture, h⟩ := bind_eq_ok.1 h
    cases h
    obtain ⟨hlocals, hinserts⟩ := capture_inserts hR hcapture
    exact ⟨_, rfl, rfl, hlocals, hinserts⟩
  | call callee args =>
    obtain ⟨x, b₁, hmat, h⟩ := bind_eq_ok.1 h
    cases h
    obtain ⟨hx, hlocals, hinserts⟩ := materialize_inserts hR hmat []
    exact ⟨_, rfl, by rw [hx]; rfl, hlocals, by rw [hx] at hinserts; exact hinserts⟩
  | unary op e ih =>
    obtain ⟨e', b₁, he, h⟩ := bind_eq_ok.1 h
    obtain ⟨s, hs, rfl, hlocals, hinserts⟩ := ih he
    obtain ⟨x, b₂, hx, h⟩ := bind_eq_ok.1 h
    obtain ⟨rfl, hlocals₂, hinserts₂⟩ := operandOf_inserts hR hinserts hlocals hx
    obtain ⟨y, b₃, hy, h⟩ := bind_eq_ok.1 h
    cases h
    obtain ⟨rfl, hlocals₃, hinserts₃⟩ := materialize_inserts hR hy (s.operand d.site).ops
    rw [hlocals₂] at hlocals₃ hinserts₃
    exact ⟨.ofUnary d.site op (s.operand d.site), by rw [script, hs], by rw [hlocals₂]; rfl,
      hlocals₃, hR.trans hinserts₂ hinserts₃⟩
  | binary op l r ihl ihr =>
    rw [decompose] at h
    by_cases hop : op.isThreeWay
    · rw [if_pos hop] at h
      obtain ⟨_, _, hrefuse, -⟩ := bind_eq_ok.1 h
      cases hrefuse
    rw [if_neg hop] at h
    -- The left operand.
    obtain ⟨l', b₁, hl, h⟩ := bind_eq_ok.1 h
    obtain ⟨s, hs, rfl, hlocals₁, hinserts₁⟩ := ihl hl
    obtain ⟨x, b₂, hx, h⟩ := bind_eq_ok.1 h
    obtain ⟨rfl, hlocals₂, hinserts₂⟩ := operandOf_inserts hR hinserts₁ hlocals₁ hx
    -- The right operand.
    obtain ⟨r', b₃, hr, h⟩ := bind_eq_ok.1 h
    obtain ⟨t, ht, rfl, hlocals₃, hinserts₃⟩ := ihr hr
    obtain ⟨y, b₄, hy, h⟩ := bind_eq_ok.1 h
    obtain ⟨rfl, hlocals₄, hinserts₄⟩ := operandOf_inserts hR hinserts₃ hlocals₃ hy
    -- The report.
    obtain ⟨⟨⟩, b₅, hemit, h⟩ := bind_eq_ok.1 h
    cases h
    rw [hlocals₂] at ht
    refine ⟨.ofBinary d.site op (s.operand d.site) (t.operand d.site), ?_, rfl,
      (insertBefore_locals hemit).trans hlocals₄, ?_⟩
    · simp only [script, if_neg hop, hs, ht]
    · exact hR.trans (hR.trans hinserts₂ hinserts₄) (hR.insert rfl (insertBefore_eq_ok hemit))
  | field f => cases h
  | unmapped description ty => cases h

omit hR in
/-- Decomposing an expression adds its script before the anchor. -/
theorem decompose_adds {e rest : Expr} {b b' : Body} (h : d.decompose e b = .ok rest b') :
    ∃ s, script d.site e b.locals = .ok s ∧ s.rest = rest ∧ b'.locals = s.locals ∧
      Adds (onlyAt d.anchor s.ops) b b' :=
  decompose_inserts (adds_insertionClosed d.anchor) h

end Decomposition

end TraceWeave
