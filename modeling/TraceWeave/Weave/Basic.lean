import TraceWeave.Failure
import TraceWeave.Program
import TraceWeave.Weave.Ledger
/-!
# Weaving a method

The vocabulary of weaving: the method at hand, what can go wrong, what comes out, and the state that
a weaver works on.  A weaver that fails leaves the state as far as it got; whoever runs it decides
what to keep.
-/

namespace TraceWeave

/-- The method at hand. -/
structure MethodTarget where
  /-- The class of the method. -/
  owner : String
  /-- The source file that traces show. -/
  file : String
  /-- The name of the method. -/
  method : String
  /-- The signature of the method. -/
  signature : String
deriving DecidableEq, Repr

/-- A method of a class as a target. -/
def MethodTarget.of (c : Class) (m : Method) : MethodTarget :=
  { owner := c.name, file := c.sourcePath, method := m.name, signature := m.signature c.name }

/-- A node of a condition that cannot be decomposed. -/
inductive IndivisibleNode where
  /-- A three-way comparison. -/
  | operator (op : BinaryOp)
  /-- A read of a static field. -/
  | fieldRead (f : FieldRef)
  /-- A node that could not be mapped. -/
  | unmapped (description : String)
deriving DecidableEq, Repr

/-- How a node is named in messages. -/
def IndivisibleNode.text : IndivisibleNode → String
  | .operator op => "operator " ++ op.symbol
  | .fieldRead f => "field read " ++ f.qualifiedName
  | .unmapped description => "opaque expression " ++ description

/-- Why a method cannot be woven. -/
inductive WeaveError where
  /-- A condition of the method holds a node that cannot be decomposed. -/
  | indivisible (method : String) (node : IndivisibleNode)
  /-- The body is inconsistent. -/
  | defective (defect : Defect)
deriving DecidableEq, Repr

namespace WeaveError

/-- The kind of failure. -/
def kind : WeaveError → FailureKind
  | .indivisible .. => .unsupported
  | .defective _ => .malformed

/-- What the error is reported as. -/
def message (e : WeaveError) : String :=
  match e with
  | .indivisible method node => e.kind.sentence method node.text
  | .defective defect => e.kind.sentence "" defect.message

end WeaveError

/-- Why a weaver leaves a method alone. -/
inductive SkipReason where
  /-- The class belongs to the tracing infrastructure. -/
  | infrastructure
  /-- The class is a test class, and the weaver is for product code. -/
  | testClass
  /-- The method is a static initializer. -/
  | staticInitializer
  /-- The method is no test, and the weaver is for tests. -/
  | notATest
deriving DecidableEq, Repr

/-- The name of a reason in reports. -/
def SkipReason.label : SkipReason → String
  | .infrastructure => "infrastructure"
  | .testClass => "test-class"
  | .staticInitializer => "static-initializer"
  | .notATest => "not-a-test"

/-- What a weaver did with a method. -/
inductive Outcome where
  /-- The method was left out without a look at its body. -/
  | skipped (reason : SkipReason)
  /-- There was nothing to do. -/
  | unchanged
  /-- This many probes were woven in. -/
  | woven (probes : Nat)
deriving DecidableEq, Repr

/-- What follows from the number of probes before and after. -/
def Outcome.ofCounts (before after : Nat) : Outcome :=
  if after - before = 0 then .unchanged else .woven (after - before)

/-- Changes a body, or fails and leaves it as far as it got. -/
abbrev EditM := EStateM WeaveError Body

/-- Inserts an operation before the instruction with a label. -/
def insertBefore (anchor : Label) (op : Operation) : EditM Unit := fun b =>
  match b.insertBefore? anchor op with
  | some b => .ok () b
  | none => .error (.defective (.missingAnchor anchor)) b

/-- Runs an edit and compares the number of probes before and after. -/
def countProbes (edit : EditM Unit) : EditM Outcome := do
  let before := (← get).probeCount
  edit
  return .ofCounts before (← get).probeCount

/-- The state of weaving a method. -/
structure Workpiece where
  /-- The body. -/
  body : Body
  /-- The lines that are probed already. -/
  ledger : LineLedger

/-- Changes a workpiece, or fails and leaves it as far as it got. -/
abbrev WeaveM := EStateM WeaveError Workpiece

/-- An edit of the body of the workpiece. -/
def onBody {α : Type} (edit : EditM α) : WeaveM α := fun w =>
  match edit w.body with
  | .ok a b => .ok a { w with body := b }
  | .error e b => .error e { w with body := b }

/-- Reserves a line for a probe; returns false if the line is probed already. -/
def reserveLine (key : String) : WeaveM Bool := fun w =>
  let (ledger, isNew) := w.ledger.record key
  .ok isNew { w with ledger }

end TraceWeave
