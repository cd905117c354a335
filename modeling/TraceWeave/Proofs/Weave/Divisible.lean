import TraceWeave.Proofs.Weave.ControlFlow
import TraceWeave.Proofs.Weave.InsertedBlock

/-!
# What can be decomposed, and what is left of it

A decomposition goes through the nodes of an expression that are not in the arguments of a call
(`Expr.parts`), and refuses some of them.  An expression without such nodes is `Expr.Divisible`, and
these are exactly the ones that are decomposed.  Of such an expression a variable is left, or one
binary node over two variables, with the type of the expression (`Expr.LeavesRest`).  Every call
that is not in the arguments of another is assigned to a variable once, in the order in which the
expression makes them (`Script.Makes`).

All of this is seen on the script of the expression.  `Decomposition.decompose_spec` adds where the
instructions of the script stand.
-/

namespace TraceWeave

namespace Expr

/-! ## Parts of expressions -/

/-- The nodes of an expression that are not in the arguments of a call, each one before the nodes
below it, and from left to right. -/
def parts : Expr → List Expr
  | .unary op e => .unary op e :: e.parts
  | .binary op l r => .binary op l r :: (l.parts ++ r.parts)
  | e => [e]

/-- A binary node. -/
def isBinary : Expr → Bool
  | .binary .. => true
  | _ => false

/-- A node that no decomposition goes into: a read of a field, a node that could not be mapped, or a
three-way comparison. -/
def isIndivisible : Expr → Bool
  | .field _ | .unmapped _ _ => true
  | .binary op _ _ => op.isThreeWay
  | _ => false

/-- Every part can be decomposed. -/
def Divisible (e : Expr) : Prop := ∀ part ∈ e.parts, part.isIndivisible = false

/-- The number of instructions that put what is left of an operand into a variable: an assignment
and a probe for a binary node, and none for what is in a variable already. -/
def spills (e : Expr) : Nat := if e.isBinary then 2 else 0

/-- The number of instructions that the decomposition of an expression inserts. -/
def insertions : Expr → Nat
  | .var _ => 1
  | .value _ | .call _ _ => 2
  | .unary _ e => e.insertions + e.spills + 2
  | .binary _ l r => l.insertions + l.spills + (r.insertions + r.spills) + 1
  | .field _ | .unmapped _ _ => 0

variable {e l r : Expr}

theorem divisible_unary_iff {op : UnaryOp} : (unary op e).Divisible ↔ e.Divisible := by
  simp [Divisible, parts, isIndivisible]

theorem divisible_binary_iff {op : BinaryOp} :
    (binary op l r).Divisible ↔ op.isThreeWay = false ∧ l.Divisible ∧ r.Divisible := by
  simp only [Divisible, parts, List.forall_mem_cons, List.forall_mem_append, isIndivisible]

theorem insertions_pos (h : e.Divisible) : 0 < e.insertions := by
  cases e with
  | field f => exact absurd (h (.field f) (by simp [parts])) (by simp [isIndivisible])
  | unmapped description ty =>
    exact absurd (h (.unmapped description ty) (by simp [parts])) (by simp [isIndivisible])
  | _ => simp [insertions]

/-- What may be left of an expression: a variable of its type, or, of a binary node, the node over
variables of the types of its operands. -/
inductive LeavesRest : Expr → Expr → Prop
  | var {e : Expr} {x : Local} (hty : x.ty = e.ty) (he : e.isBinary = false) :
      LeavesRest e (.var x)
  | binary {op : BinaryOp} {l r : Expr} {x y : Local} (hl : x.ty = l.ty) (hr : y.ty = r.ty) :
      LeavesRest (.binary op l r) (.binary op (.var x) (.var y))

theorem LeavesRest.ty_eq {rest : Expr} (h : e.LeavesRest rest) : rest.ty = e.ty := by
  cases h with
  | var hty _ => exact hty
  | binary hl hr => simp only [ty, hl, hr]

theorem LeavesRest.var_or_binary {rest : Expr} (h : e.LeavesRest rest) :
    (∃ x, rest = .var x) ∨ ∃ op x y, rest = .binary op (.var x) (.var y) := by
  cases h with
  | var _ _ => exact .inl ⟨_, rfl⟩
  | binary _ _ => exact .inr ⟨_, _, _, rfl⟩

end Expr

/-! ## Scripts of divisible expressions -/

/-- Only divisible expressions have a script. -/
theorem divisible_of_script {site : BranchSite} {e : Expr} {locals : List Local} {s : Script}
    (h : script site e locals = .ok s) : e.Divisible := by
  induction e generalizing locals s with
  | unary op e ih =>
    obtain ⟨t, ht, -⟩ := script_unary_eq_ok h
    exact Expr.divisible_unary_iff.2 (ih ht)
  | binary op l r ihl ihr =>
    obtain ⟨t, u, hop, ht, hu, -⟩ := script_binary_eq_ok h
    exact Expr.divisible_binary_iff.2 ⟨hop, ihl ht, ihr hu⟩
  | field f => cases h
  | unmapped description ty => cases h
  | _ => simp [Expr.Divisible, Expr.parts, Expr.isIndivisible]

/-- An operand is held by a variable of its type, after as many more operations as it takes to put
it there. -/
theorem Script.operand_spec {e : Expr} {s : Script} (h : e.LeavesRest s.rest) (site : BranchSite) :
    (s.operand site).var.ty = e.ty ∧ (s.operand site).ops.length = s.ops.length + e.spills := by
  have hty := h.ty_eq
  revert h
  rcases s.operand_cases site with ⟨x, hrest, hs⟩ | ⟨hrest, hs⟩ <;> rw [hs]
  · rw [hrest] at hty ⊢
    rintro (⟨-, he⟩ | _)
    exact ⟨hty, by simp [Expr.spills, he]⟩
  · intro h
    generalize hr : s.rest = rest at h
    cases h with
    | var _ _ => exact absurd hr (hrest _)
    | binary _ _ => exact ⟨hr ▸ hty, by simp [Script.held, Expr.spills, Expr.isBinary]⟩

/-- What a script leaves of its expression, and how many operations it has. -/
theorem leavesRest_of_script {site : BranchSite} {e : Expr} {locals : List Local} {s : Script}
    (h : script site e locals = .ok s) : e.LeavesRest s.rest ∧ s.ops.length = e.insertions := by
  induction e generalizing locals s with
  | value v => cases h; exact ⟨.var rfl rfl, rfl⟩
  | var x => cases h; exact ⟨.var rfl rfl, rfl⟩
  | call callee args => cases h; exact ⟨.var rfl rfl, rfl⟩
  | unary op e ih =>
    obtain ⟨t, ht, rfl⟩ := script_unary_eq_ok h
    obtain ⟨hrest, hlength⟩ := ih ht
    obtain ⟨hty, hoperand⟩ := Script.operand_spec hrest site
    refine ⟨.var (Decomposition.ty_unaryOver hty) rfl, ?_⟩
    simp [Script.ofUnary, Script.ofOperand, Script.held, hoperand, hlength, Expr.insertions]
  | binary op l r ihl ihr =>
    obtain ⟨t, u, -, ht, hu, rfl⟩ := script_binary_eq_ok h
    obtain ⟨htyl, hlengthl⟩ := Script.operand_spec (ihl ht).1 site
    obtain ⟨htyr, hlengthr⟩ := Script.operand_spec (ihr hu).1 site
    refine ⟨.binary htyl htyr, ?_⟩
    simp [Script.ofBinary, hlengthl, hlengthr, (ihl ht).2, (ihr hu).2, Expr.insertions]
    omega
  | field f => cases h
  | unmapped description ty => cases h

/-! ## Calls -/

/-- The outermost calls that an operation makes when it computes the value that it assigns. -/
def Operation.assignedCalls : Operation → List Expr
  | .assign _ value => value.outermostCalls
  | _ => []

/-- The operation assigns a call to a variable. -/
def Operation.AssignsCall (op : Operation) : Prop :=
  ∃ x callee args, op = .assign (.var x) (.call callee args)

namespace Script

/-- The operations of a script make some calls, one after another.  Each of them makes one call, by
assigning it to a variable, or none. -/
structure Makes (ops : List Operation) (calls : List Expr) : Prop where
  flatMap_eq : ops.flatMap Operation.assignedCalls = calls
  single : ∀ op ∈ ops, op.assignedCalls = [] ∨ op.AssignsCall

variable {site : BranchSite} {ops ops' : List Operation} {calls calls' : List Expr}

theorem Makes.append (h : Makes ops calls) (h' : Makes ops' calls') :
    Makes (ops ++ ops') (calls ++ calls') where
  flatMap_eq := by rw [List.flatMap_append, h.flatMap_eq, h'.flatMap_eq]
  single op hop := (List.mem_append.1 hop).elim (h.single op) (h'.single op)

theorem Makes.append_quiet (h : Makes ops calls) (op : Operation) (hop : op.assignedCalls = []) :
    Makes (ops ++ [op]) calls := by
  have hlast : Makes [op] [] := ⟨by simp [hop], by simp [hop]⟩
  simpa using h.append hlast

/-- A value without calls is computed. -/
theorem Makes.held (h : Makes ops calls) {value : Expr} (hvalue : value.outermostCalls = [])
    (source : Source) (locals : List Local) :
    Makes (Script.held site ops value source locals).ops calls := by
  have hassign := h.append_quiet (.assign (.var (freshIn locals value.ty)) value) hvalue
  simpa [Script.held] using
    hassign.append_quiet (captureOp site (freshIn locals value.ty) source) rfl

/-- A call is made. -/
theorem Makes.call (site : BranchSite) (callee : Callee) (args : List Expr) (source : Source)
    (locals : List Local) :
    Makes (Script.held site [] (.call callee args) source locals).ops [.call callee args] where
  flatMap_eq := by
    simp [Script.held, Operation.assignedCalls, captureOp, Expr.outermostCalls]
  single op hop := by
    simp only [Script.held, List.nil_append, List.mem_cons, List.not_mem_nil, or_false] at hop
    rcases hop with rfl | rfl
    · exact .inr ⟨_, _, _, rfl⟩
    · exact .inl rfl

/-- What is left of an expression is put into a variable without a call. -/
theorem Makes.operand {s : Script} (h : Makes s.ops calls) (hrest : s.rest.outermostCalls = [])
    (site : BranchSite) : Makes (s.operand site).ops calls := by
  rcases s.operand_cases site with ⟨x, -, hs⟩ | ⟨-, hs⟩ <;> rw [hs]
  · exact h
  · exact h.held hrest .variable s.locals

end Script

/-- A script makes the outermost calls of its expression, each one once and in their order, and what
it leaves makes none. -/
theorem makes_script {site : BranchSite} {e : Expr} {locals : List Local} {s : Script}
    (h : script site e locals = .ok s) :
    Script.Makes s.ops e.outermostCalls ∧ s.rest.outermostCalls = [] := by
  induction e generalizing locals s with
  | value v => cases h; exact ⟨Script.Makes.held ⟨rfl, by simp⟩ rfl _ _, rfl⟩
  | var x => cases h; exact ⟨⟨rfl, by simp [Script.captureOp, Operation.assignedCalls]⟩, rfl⟩
  | call callee args => cases h; exact ⟨.call site callee args _ _, rfl⟩
  | unary op e ih =>
    obtain ⟨t, ht, rfl⟩ := script_unary_eq_ok h
    obtain ⟨hmakes, hrest⟩ := ih ht
    have hvalue : (Decomposition.unaryOver op (t.operand site).var).outermostCalls = [] := by
      cases op <;> rfl
    exact ⟨(hmakes.operand hrest site).held hvalue _ _, rfl⟩
  | binary op l r ihl ihr =>
    obtain ⟨t, u, -, ht, hu, rfl⟩ := script_binary_eq_ok h
    have hl := (ihl ht).1.operand (ihl ht).2 site
    have hr := (ihr hu).1.operand (ihr hu).2 site
    exact ⟨(hl.append hr).append_quiet _ rfl, rfl⟩
  | field f => cases h
  | unmapped description ty => cases h

/-! ## Success -/

/-- In every body with the anchor the edit succeeds, and the anchor stays. -/
def AcceptsAt {α : Type} (anchor : Label) (edit : EditM α) : Prop :=
  ∀ b : Body, anchor ∈ b.labels → ∃ a b', edit b = .ok a b' ∧ anchor ∈ b'.labels

namespace AcceptsAt

variable {α β : Type} {anchor : Label}

theorem pure (a : α) : AcceptsAt anchor (pure a) := fun b hb => ⟨a, b, rfl, hb⟩

theorem bind {edit : EditM α} {next : α → EditM β} (h : AcceptsAt anchor edit)
    (hnext : ∀ a, AcceptsAt anchor (next a)) : AcceptsAt anchor (edit >>= next) := by
  intro b hb
  obtain ⟨a, b₁, hedit, hb₁⟩ := h b hb
  obtain ⟨c, b₂, hrest, hb₂⟩ := hnext a b₁ hb₁
  exact ⟨c, b₂, bind_eq_ok.2 ⟨a, b₁, hedit, hrest⟩, hb₂⟩

theorem insertBefore (anchor : Label) (op : Operation) :
    AcceptsAt anchor (insertBefore anchor op) := by
  intro b hb
  obtain ⟨b', hinsert⟩ : ∃ b', b.insertBefore? anchor op = some b' :=
    ⟨_, by rw [Body.insertBefore?, if_pos hb]⟩
  exact ⟨(), b', by rw [TraceWeave.insertBefore, hinsert],
    (insertBefore?_labels_sublist hinsert).subset hb⟩

end AcceptsAt

namespace Decomposition

variable {d : Decomposition}

theorem acceptsAt_materialize (value : Expr) (source : Source) :
    AcceptsAt d.anchor (d.materialize value source) := by
  intro b hb
  have hassign := AcceptsAt.insertBefore d.anchor (.assign (.var (b.freshLocal value.ty)) value)
  exact (hassign.bind fun _ => (AcceptsAt.insertBefore d.anchor _).bind fun _ =>
    .pure (b.freshLocal value.ty)) (b.addTemporary value.ty) hb

theorem acceptsAt_operandOf (rest : Expr) : AcceptsAt d.anchor (d.operandOf rest) := by
  cases rest with
  | var x => exact .pure x
  | _ => exact acceptsAt_materialize _ .variable

theorem acceptsAt_decompose {e : Expr} (he : e.Divisible) :
    AcceptsAt d.anchor (d.decompose e) := by
  induction e with
  | value v => exact (acceptsAt_materialize _ _).bind fun x => .pure _
  | var x => exact (AcceptsAt.insertBefore d.anchor _).bind fun _ => .pure _
  | call callee args => exact (acceptsAt_materialize _ _).bind fun x => .pure _
  | unary op e ih =>
    exact (ih (Expr.divisible_unary_iff.1 he)).bind fun rest => (acceptsAt_operandOf rest).bind
      fun x => (acceptsAt_materialize _ _).bind fun y => .pure _
  | binary op l r ihl ihr =>
    obtain ⟨hop, hl, hr⟩ := Expr.divisible_binary_iff.1 he
    rw [decompose, if_neg (by simp [hop])]
    exact (ihl hl).bind fun l' => (acceptsAt_operandOf l').bind fun x =>
      (ihr hr).bind fun r' => (acceptsAt_operandOf r').bind fun y =>
        (AcceptsAt.insertBefore d.anchor _).bind fun _ => .pure _
  | field f => exact absurd he (by simp [Expr.Divisible, Expr.parts, Expr.isIndivisible])
  | unmapped description ty =>
    exact absurd he (by simp [Expr.Divisible, Expr.parts, Expr.isIndivisible])

variable {b b' : Body} {e rest : Expr}

/-- A decomposition goes through exactly on divisible expressions. -/
theorem exists_decompose_iff (hanchor : d.anchor ∈ b.labels) :
    (∃ rest b', d.decompose e b = .ok rest b') ↔ e.Divisible := by
  constructor
  · rintro ⟨rest, b', h⟩
    obtain ⟨s, hs, -⟩ := decompose_adds h
    exact divisible_of_script hs
  · intro he
    obtain ⟨rest, b', h, -⟩ := acceptsAt_decompose he b hanchor
    exact ⟨rest, b', h⟩

/-- The operations of the script stand in a block before the anchor, if there are labels enough. -/
theorem decompose_block (h : d.decompose e b = .ok rest b') (hanchor : d.anchor ∈ b.labels)
    (hroom : b.size + e.insertions ≤ UInt32.size) :
    ∃ s block, script d.site e b.locals = .ok s ∧ s.rest = rest ∧ b'.locals = s.locals ∧
      b'.size ≤ UInt32.size ∧ block.map (·.op) = s.ops ∧ Body.HasBlock d.anchor block b b' := by
  obtain ⟨s, hs, hrest, hlocals, hgains⟩ :=
    decompose_inserts (Body.gainsBlock_insertionClosed d.anchor) h
  have hsize : b'.size ≤ UInt32.size := by
    rw [hgains.size_eq, (leavesRest_of_script hs).2]
    exact hroom
  obtain ⟨block, hops, hblock⟩ := hgains.block hsize hanchor
  exact ⟨s, block, hs, hrest, hlocals, hsize, hops, hblock⟩

/-- In a body with distinct labels, among them the anchor, and with labels left for what is to be
inserted, exactly the divisible expressions are decomposed.  What is left of one has its type and is
a variable, or a binary node over two variables.  One block of instructions with new labels and
without lines stands right before the anchor: assignments to variables, captures and reports.  Going
through it, one comes to the outermost calls of the expression, each one assigned to a variable by
an instruction of its own, in their order.  All other instructions are where they were, up to jumps
to the anchor, which lead to the start of the block. -/
theorem decompose_spec (hnodup : b.labels.Nodup) (hanchor : d.anchor ∈ b.labels)
    (hroom : b.size + e.insertions ≤ UInt32.size) :
    ((∃ rest b', d.decompose e b = .ok rest b') ↔ e.Divisible) ∧
      ∀ rest b', d.decompose e b = .ok rest b' →
        rest.ty = e.ty ∧
        ((∃ x, rest = .var x) ∨ ∃ op x y, rest = .binary op (.var x) (.var y)) ∧
        b'.labels.Nodup ∧
        ∃ before i after first others,
          b.instrs = before ++ i :: after ∧ i.label = d.anchor ∧
          b'.instrs = before.map (Instr.redirect d.anchor first.label) ++ (first :: others) ++
            (i :: after).map (Instr.redirect d.anchor first.label) ∧
          (∀ j ∈ first :: others, j.label ∉ b.labels ∧ j.line = 0 ∧ j.op.IsPart d.site ∧
            (j.op.assignedCalls = [] ∨ j.op.AssignsCall)) ∧
          (first :: others).flatMap (·.op.assignedCalls) = e.outermostCalls := by
  refine ⟨exists_decompose_iff hanchor, fun rest b' h => ?_⟩
  obtain ⟨s, block, hs, rfl, -, hsize, hops, hblock⟩ := decompose_block h hanchor hroom
  obtain ⟨hrest, hlength⟩ := leavesRest_of_script hs
  have hnodup' := (Body.enlarges_editClosed.decompose h).nodup hsize hnodup
  obtain ⟨before, i, after, hsplit, hi, hbefore⟩ := Body.exists_split hanchor
  refine ⟨hrest.ty_eq, hrest.var_or_binary, hnodup', before, i, after, ?_⟩
  obtain ⟨first, others, rfl⟩ : ∃ first others, block = first :: others := by
    refine List.exists_cons_of_ne_nil (List.ne_nil_of_length_pos ?_)
    rw [← List.length_map (f := (·.op)), hops, hlength]
    exact Expr.insertions_pos (divisible_of_script hs)
  have hmakes := (makes_script hs).1
  refine ⟨first, others, hsplit, hi, hblock.instrs_eq before i after hsplit hi hbefore,
    fun j hj => ?_, ?_⟩
  · have hop : j.op ∈ s.ops := hops ▸ List.mem_map_of_mem hj
    exact ⟨hblock.labels j hj, hblock.lines j hj, isPart_of_mem_script hs _ hop,
      hmakes.single _ hop⟩
  · rw [← hmakes.flatMap_eq, ← hops, List.flatMap_map]

/-- A call is compared with the negation of another on a line to which a jump leads. -/
def twoCalls : Expr :=
  .binary .lt (.call ⟨"A", "f", .int⟩ [.call ⟨"A", "g", .int⟩ []])
    (.unary .neg (.call ⟨"A", "g", .int⟩ []))

/-- The block before the comparison has nine instructions.  Both outermost calls are made there,
and the comparison of two variables is left. -/
theorem decompose_spec_twoCalls :
    let b : Body := { instrs := [⟨⟨0⟩, 4, .goto ⟨1⟩⟩, ⟨⟨1⟩, 5, .branch twoCalls ⟨1⟩⟩] }
    let d : Decomposition := ⟨⟨1⟩, ⟨"A.java", 5, 1⟩, "m"⟩
    b.labels.Nodup ∧ d.anchor ∈ b.labels ∧ b.size + twoCalls.insertions ≤ UInt32.size ∧
      ∃ rest b', d.decompose twoCalls b = .ok rest b' ∧ rest.ty = .boolean ∧
        b'.labels.Nodup := by
  have hnodup : ([⟨0⟩, ⟨1⟩] : List Label).Nodup := by decide
  have hroom : 2 + twoCalls.insertions ≤ UInt32.size := by decide
  obtain ⟨hiff, hspec⟩ := decompose_spec (d := ⟨⟨1⟩, ⟨"A.java", 5, 1⟩, "m"⟩) (e := twoCalls)
    (b := { instrs := [⟨⟨0⟩, 4, .goto ⟨1⟩⟩, ⟨⟨1⟩, 5, .branch twoCalls ⟨1⟩⟩] })
    hnodup (by decide) hroom
  have hdivisible : twoCalls.Divisible := by
    simp [twoCalls, Expr.Divisible, Expr.parts, Expr.isIndivisible, BinaryOp.isThreeWay]
  obtain ⟨rest, b', h⟩ := hiff.2 hdivisible
  obtain ⟨hty, -, hlabels, -⟩ := hspec rest b' h
  exact ⟨hnodup, by decide, hroom, rest, b', h, hty, hlabels⟩

end Decomposition

end TraceWeave
