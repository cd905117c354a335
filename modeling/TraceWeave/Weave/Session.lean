import TraceWeave.Weave.FieldAccess
import TraceWeave.Weave.Lifecycle
import TraceWeave.Weave.Report
/-!
# Weaving programs

A plan runs weavers over every method of a program.  A method is woven as a whole or not at all: if
a weaver fails, or leaves an inconsistent body, the method keeps the body that it had, and the lines
that it reserved stay free.  A session remembers the probed lines from one program to the next.
-/

namespace TraceWeave

/-- The keys of the lines that are probed somewhere in a run. -/
structure Session where
  /-- The keys, each once. -/
  keys : List String := []
deriving DecidableEq, Repr

namespace Session

instance : EmptyCollection Session := ⟨{}⟩

/-- Whether the line with a key is probed. -/
def isLogged (s : Session) (key : String) : Bool := s.keys.contains key

/-- The number of probed lines. -/
def size (s : Session) : Nat := s.keys.length

/-- The session with further keys. -/
def commit (s : Session) (keys : List String) : Session := ⟨s.keys ++ keys⟩

end Session

/-- A weaver. -/
inductive Weaver where
  /-- Line and condition probes in product code. -/
  | product
  /-- Field probes in product code. -/
  | fieldAccess
  /-- Markers around tests. -/
  | lifecycle
deriving DecidableEq, Repr

namespace Weaver

/-- The name of a weaver in reports. -/
def name : Weaver → String
  | .product => "product-code"
  | .fieldAccess => "field-access"
  | .lifecycle => "test-lifecycle"

/-- All weavers. -/
def all : List Weaver := [.product, .fieldAccess, .lifecycle]

/-- The weaver with a name. -/
def ofName? (s : String) : Option Weaver := all.find? fun w => w.name == s

end Weaver

/-- What is to be woven: the settings, and the selected lines and fields. -/
structure Plan where
  /-- The settings. -/
  settings : Settings := {}
  /-- The requested lines. -/
  lines : LineSelection := ∅
  /-- The monitored fields. -/
  fields : FieldSelection := ∅

namespace Plan

/-- Runs a weaver on a method. -/
def apply (plan : Plan) (weaver : Weaver) (target : MethodTarget) : WeaveM Outcome :=
  match weaver with
  | .product => Product.weave plan.settings plan.lines target
  | .fieldAccess => onBody (FieldAccess.weave plan.settings plan.fields target)
  | .lifecycle => onBody (Lifecycle.weave plan.settings target)

/-- The failure of a weaver on a method. -/
def failure (weaver : Weaver) (target : MethodTarget) (e : WeaveError) : MethodFailure :=
  { signature := target.signature, weaver := weaver.name, message := e.message }

/-- Runs weavers one after another, each on what the one before has left, and checks the body after
each. -/
def applyAll (plan : Plan) (target : MethodTarget) :
    List Weaver → Workpiece → Except MethodFailure (List Outcome × Workpiece)
  | [], w => .ok ([], w)
  | weaver :: rest, w =>
    match plan.apply weaver target w with
    | .error e _ => .error (failure weaver target e)
    | .ok outcome w =>
      match w.body.defect? with
      | some defect => .error (failure weaver target (.defective defect))
      | none => do
        let (outcomes, w) ← plan.applyAll target rest w
        return (outcome :: outcomes, w)

/-- Weaves a method of a class. -/
def weaveMethod (plan : Plan) (weavers : List Weaver) (c : Class) (m : Method) (s : Session) :
    Method × Session × ReportEntry :=
  match plan.applyAll (.of c m) weavers ⟨m.body, ⟨s.keys, []⟩⟩ with
  | .error failure => (m, s, .rolledBack failure)
  | .ok (outcomes, w) =>
    ({ m with body := w.body }, s.commit w.ledger.pending, .processed c.name outcomes)

/-- Weaves methods of a class, in order. -/
def weaveMethods (plan : Plan) (weavers : List Weaver) (c : Class) :
    List Method → Session → List Method × Session × Report
  | [], s => ([], s, ∅)
  | m :: rest, s =>
    let (m, s, entry) := plan.weaveMethod weavers c m s
    let (rest, s, report) := plan.weaveMethods weavers c rest s
    (m :: rest, s, .ofEntry entry ++ report)

/-- Weaves classes, in order. -/
def weaveClasses (plan : Plan) (weavers : List Weaver) :
    List Class → Session → List Class × Session × Report
  | [], s => ([], s, ∅)
  | c :: rest, s =>
    let (methods, s, report) := plan.weaveMethods weavers c c.methods s
    let (rest, s, others) := plan.weaveClasses weavers rest s
    ({ c with methods } :: rest, s, report ++ others)

/-- Weaves a program. -/
def weave (plan : Plan) (weavers : List Weaver) (p : Program) (s : Session) :
    Program × Session × Report :=
  let (classes, s, report) := plan.weaveClasses weavers p.classes s
  (⟨classes⟩, s, report)

/-- The weavers of the product phase. -/
def productWeavers : List Weaver := [.product, .fieldAccess]

/-- The weavers of the test phase. -/
def testWeavers : List Weaver := [.lifecycle]

/-- The product phase: line and condition probes, then field probes. -/
def weaveProduct (plan : Plan) (p : Program) (s : Session) : Program × Session × Report :=
  plan.weave productWeavers p s

/-- The test phase: markers around tests. -/
def weaveTests (plan : Plan) (p : Program) (s : Session) : Program × Session × Report :=
  plan.weave testWeavers p s

end Plan

end TraceWeave
