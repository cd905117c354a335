import TraceWeave.Settings
import TraceWeave.Weave.Basic
/-!
# Probes around tests

A test method marks its start at the entry and its end before every return.  A body whose last
instruction lets control fall off its end gets a return of its own.
-/

namespace TraceWeave

namespace Lifecycle

/-- Why a method gets no test markers, if it gets none. -/
def skip? (settings : Settings) (target : MethodTarget) : Option SkipReason :=
  if settings.isInfrastructure target.owner then some .infrastructure
  else if target.method == Method.initializerName then some .staticInitializer
  else if !settings.testLifecycle || !settings.isTestMethod target.owner target.method then
    some .notATest
  else none

/-- The labels of the returns of a body. -/
def returns (b : Body) : List Label :=
  (b.instrs.filter fun i => i.op.isReturn).map (·.label)

/-- Inserts the end marker before each of some instructions. -/
def markEnds (test : String) : List Label → EditM Unit
  | [] => return
  | label :: rest => do
    insertBefore label (.probe (.testEnd test))
    markEnds test rest

/-- Whether control can fall off the end of a body. -/
def fallsOff (b : Body) : Bool :=
  match b.instrs.getLast? with
  | none => true
  | some i => !i.op.isTerminator

/-- Closes a body that control can fall off, with the end marker and a return. -/
def closeEnd (test : String) (b : Body) : Body :=
  if fallsOff b then (b.push 0 (.probe (.testEnd test))).push 0 (.ret none) else b

/-- Marks the start and all ends of a test. -/
def mark (test : String) : EditM Unit := do
  markEnds test (returns (← get))
  modify (closeEnd test)
  modify fun b => b.insertEntry (.probe (.testStart test))

/-- Weaves test markers into test methods. -/
def weave (settings : Settings) (target : MethodTarget) : EditM Outcome := do
  match skip? settings target with
  | some reason => return .skipped reason
  | none => countProbes (mark target.signature)

end Lifecycle

end TraceWeave
