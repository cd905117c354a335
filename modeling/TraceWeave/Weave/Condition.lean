import TraceWeave.Weave.Basic
/-!
# Conditions

A branch condition is decomposed before its branch: every part is computed once into a local
variable, the variable is captured, and each binary node reports its operator with the names of its
two operands.  What is left of the condition reads those variables only.
-/

namespace TraceWeave

/-- A branch in a source file; branches on one line are counted from one. -/
structure BranchSite where
  /-- The source file. -/
  file : String
  /-- The line of the branch. -/
  line : UInt32
  /-- The number of the branch on its line. -/
  index : UInt32
deriving DecidableEq, Repr

/-- Where a condition is decomposed. -/
structure Decomposition where
  /-- The instruction before which everything is inserted. -/
  anchor : Label
  /-- The branch that the probes report. -/
  site : BranchSite
  /-- The signature of the method, for messages. -/
  method : String

namespace Decomposition

variable (d : Decomposition)

/-- Inserts a probe. -/
def emit (p : Probe) : EditM Unit := insertBefore d.anchor (.probe p)

/-- Captures a local variable. -/
def capture (x : Local) (source : Source) : EditM Unit :=
  d.emit (.capture d.site.file d.site.line x source)

/-- Computes an expression into a fresh temporary and captures that. -/
def materialize (value : Expr) (source : Source) : EditM Local := do
  let x := (← get).freshLocal value.ty
  modify fun b => b.addTemporary value.ty
  insertBefore d.anchor (.assign (.var x) value)
  d.capture x source
  return x

/-- The variable that holds a decomposed operand; a compound one gets a temporary. -/
def operandOf : Expr → EditM Local
  | .var x => return x
  | e => d.materialize e .variable

/-- Refuses a node. -/
def refuse {α : Type} (node : IndivisibleNode) : EditM α := throw (.indivisible d.method node)

/-- The value of a unary node over a variable.  A logical negation becomes a comparison with the
zero of the variable's type. -/
def unaryOver (op : UnaryOp) (x : Local) : Expr :=
  match op with
  | .not => .binary .eq (.var x) (.value (.zero x.ty))
  | op => .unary op (.var x)

/-- Decomposes an expression and returns what is left of it. -/
def decompose : Expr → EditM Expr
  | .var x => do
    d.capture x .variable
    return .var x
  | .value v => return .var (← d.materialize (.value v) .constant)
  | .call callee args => return .var (← d.materialize (.call callee args) .variable)
  | .binary op l r => do
    if op.isThreeWay then d.refuse (.operator op)
    let x ← d.operandOf (← decompose l)
    let y ← d.operandOf (← decompose r)
    d.emit (.condition d.site.file d.site.line d.site.index x.name op y.name)
    return .binary op (.var x) (.var y)
  | .unary op e => do
    let x ← d.operandOf (← decompose e)
    return .var (← d.materialize (unaryOver op x) .variable)
  | .field f => d.refuse (.fieldRead f)
  | .unmapped description _ => d.refuse (.unmapped description)

end Decomposition

end TraceWeave
