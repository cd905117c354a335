import TraceWeave.Machine.Natives
import TraceWeave.Machine.Table
import TraceWeave.Program
import TraceWeave.Trace.Recorder
/-!
# The machine

Runs programs.  Static fields, call counts and the trace are kept across calls and survive a fault;
every call has a frame of its own for its local variables.  Probes never change what a program
computes: they only add requests to the trace, which a recorder carries out.

Two bounds keep every run finite.  All frames of a top-level call share one budget of instructions,
and calls nest at most `maxDepth` deep.
-/

namespace TraceWeave

/-- The number of instructions that a top-level call may execute unless another one is set. -/
def defaultStepLimit : Nat := 1000000

/-- What a machine runs. -/
structure Setup where
  /-- The program. -/
  program : Program
  /-- The host functions. -/
  natives : Natives := Natives.none
  /-- The number of instructions that a top-level call may execute. -/
  stepLimit : Nat := defaultStepLimit

/-- The number of calls that may be active within a top-level call, that one not counted. -/
def maxDepth : Nat := 256

/-- What a machine keeps. -/
structure MachineState where
  /-- The values of static fields, by class and name. -/
  statics : Table (String × String) Value := ∅
  /-- How often each method was called, by class and name. -/
  calls : Table (String × String) Nat := ∅
  /-- What was asked of the recorder, last request first. -/
  trace : List RecorderRequest := []
  /-- The calls of host functions with their arguments, last call first. -/
  hostCalls : List (Callee × List Value) := []
  /-- The instructions executed in the current top-level call. -/
  steps : Nat := 0
  /-- The frames that are active in the current top-level call. -/
  active : Nat := 0
  /-- The greatest number of frames that were active at a time in the current top-level call. -/
  deepest : Nat := 0
  /-- Whether the static initializers have been started. -/
  initialized : Bool := false

namespace MachineState

/-- Before anything has run, static fields hold their initial values. -/
def initial (p : Program) : MachineState :=
  { statics := .ofList (p.classes.flatMap fun c =>
      c.fields.map fun f => ((c.name, f.name), f.initialValue)) }

/-- How often a method was called. -/
def callCount (s : MachineState) (owner method : String) : Nat :=
  (s.calls.get? (owner, method)).getD 0

/-- The state at the start of a top-level call: a fresh budget, and no active frames. -/
def rewound (s : MachineState) : MachineState := { s with steps := 0, active := 0, deepest := 0 }

/-- What was asked of the recorder, in order. -/
def requests (s : MachineState) : List RecorderRequest := s.trace.reverse

end MachineState

/-- Runs on a machine; a fault leaves the machine as far as it got. -/
abbrev MachineM := EStateM Fault MachineState

/-- The variables of a call. -/
structure Frame where
  /-- The signature of the method. -/
  signature : String
  /-- The values of its variables. -/
  locals : Table String Value

namespace Frame

/-- Fails in this frame. -/
def fail {α : Type} (frame : Frame) (cause : FaultCause) : MachineM α :=
  throw ⟨frame.signature, cause⟩

/-- The value of an operator, or a fault in this frame. -/
def operator {α : Type} (frame : Frame) : Except OperatorError α → MachineM α
  | .ok a => return a
  | .error e => frame.fail (.operator e)

/-- The frame in which a variable has a value. -/
def assign (frame : Frame) (name : String) (v : Value) : Frame :=
  { frame with locals := frame.locals.insert name v }

end Frame

/-- A way to call methods. -/
abbrev Call := Callee → List Value → MachineM (Option Value)

mutual

/-- The value of an expression in a frame. -/
def Expr.eval (call : Call) (frame : Frame) : Expr → MachineM Value
  | .value v => return v
  | .var x =>
    match frame.locals.get? x.name with
    | some v => return v
    | none => frame.fail (.unassigned x.name)
  | .unary op e => do
    let v ← e.eval call frame
    frame.operator (Value.unary op v)
  | .binary op l r => do
    let v ← l.eval call frame
    let w ← r.eval call frame
    frame.operator (Value.binary op v w)
  | .call callee args => do
    let values ← Expr.evalAll call frame args
    match ← call callee values with
    | some v => return v
    | none => frame.fail (.noResult callee)
  | .field f => do
    match (← get).statics.get? (f.owner, f.name) with
    | some v => return v
    | none => frame.fail (.unknownField f)
  | .unmapped description _ => frame.fail (.unmapped description)

/-- The values of expressions in a frame, from left to right. -/
def Expr.evalAll (call : Call) (frame : Frame) : List Expr → MachineM (List Value)
  | [] => return []
  | e :: rest => do
    let v ← e.eval call frame
    let values ← Expr.evalAll call frame rest
    return v :: values

end

/-- Adds a request to the trace. -/
def request (r : RecorderRequest) : MachineM Unit :=
  modify fun s => { s with trace := r :: s.trace }

/-- What a probe asks of the recorder in a frame; nothing if it captures a variable without a
value. -/
def Probe.request? (frame : Frame) : Probe → Option RecorderRequest
  | .lineReached file line => some (.event (.exercised file line))
  | .branchReached file line index => some (.event (.subconditionChecked file line index))
  | .condition file line index left op right =>
    some (.event (.condition file line index left op.symbol right))
  | .capture file line x source =>
    (frame.locals.get? x.name).map fun v =>
      .event (.var file line x.name x.ty.text source.name (v.render x.ty))
  | .fieldRead file line field => some (.event (.fieldAccessed file line field))
  | .testStart test => some (.beginTest test)
  | .testEnd test => some (.endTest test)

/-- Fires a probe in a frame. -/
def Probe.fire (frame : Frame) (p : Probe) : MachineM Unit :=
  match p.request? frame, p with
  | some r, _ => request r
  | none, .capture _ _ x _ => frame.fail (.unassignedCapture x.name)
  | none, _ => return

/-- How a method goes on after an instruction. -/
inductive Control where
  /-- With the instruction at a position. -/
  | next (frame : Frame) (position : Nat)
  /-- Not at all: it returns. -/
  | finish (result : Option Value)

/-- The position of the instruction that jumps to a label lead to: the last one that has it. -/
def Body.jumpPosition? (b : Body) (label : Label) : Option Nat :=
  (b.instrs.reverse.findIdx? fun i => i.label == label).map fun n => b.instrs.length - 1 - n

/-- Jumps to a label. -/
def Body.jump (b : Body) (frame : Frame) (label : Label) : MachineM Control :=
  match b.jumpPosition? label with
  | some position => return .next frame position
  | none => frame.fail (.missingInstr label)

/-- Executes the operation of the instruction at a position. -/
def Operation.execute (call : Call) (b : Body) (frame : Frame) (position : Nat) :
    Operation → MachineM Control
  | .assign (.var x) value => do
    let v ← value.eval call frame
    return .next (frame.assign x.name v) (position + 1)
  | .assign (.field f) value => do
    let v ← value.eval call frame
    modify fun s => { s with statics := s.statics.insert (f.owner, f.name) v }
    return .next frame (position + 1)
  | .branch condition target => do
    let v ← condition.eval call frame
    if ← frame.operator v.truth then b.jump frame target
    else return .next frame (position + 1)
  | .goto target => b.jump frame target
  | .invoke callee args => do
    let values ← Expr.evalAll call frame args
    let _ ← call callee values
    return .next frame (position + 1)
  | .ret none => return .finish none
  | .ret (some value) => do
    let v ← value.eval call frame
    return .finish (some v)
  | .probe p => do
    p.fire frame
    return .next frame (position + 1)
  | .nop => return .next frame (position + 1)

/-- Counts an instruction that is about to be executed, if the budget has room for it. -/
def countStep (limit : Nat) (frame : Frame) : MachineM Unit := do
  if limit ≤ (← get).steps then frame.fail (.stepLimit limit)
  modify fun s => { s with steps := s.steps + 1 }

/-- Runs a body from a position until the method returns or control falls off the end.  Each round
counts a step, so `limit + 1` rounds are always enough. -/
def Body.runFrom (limit : Nat) (call : Call) (b : Body) :
    Nat → Frame → Nat → MachineM (Option Value)
  | 0, frame, _ => frame.fail (.stepLimit limit)
  | rounds + 1, frame, position =>
    match b.instrs[position]? with
    | none => return none
    | some i => do
      countStep limit frame
      match ← i.op.execute call b frame position with
      | .next frame position => b.runFrom limit call rounds frame position
      | .finish result => return result

namespace Setup

variable (setup : Setup)

/-- Counts a call of a method. -/
def countCall (callee : Callee) : MachineM Unit :=
  modify fun s =>
    { s with
      calls := s.calls.insert (callee.owner, callee.method)
        (s.callCount callee.owner callee.method + 1) }

/-- The method that a call names. -/
def resolve? (callee : Callee) : Option Method :=
  (setup.program.class? callee.owner).bind fun c => c.method? callee.method

/-- Notes a call of a host function. -/
def noteHostCall (callee : Callee) (args : List Value) : MachineM Unit :=
  modify fun s => { s with hostCalls := (callee, args) :: s.hostCalls }

/-- Calls a host function or a method of the program; `run` runs the latter. -/
def dispatch (run : String → Method → List Value → MachineM (Option Value)) : Call :=
  fun callee args => do
    countCall callee
    match setup.natives callee.owner callee.method with
    | some function =>
      noteHostCall callee args
      match function args with
      | .ok v => return some v
      | .error e => throw ⟨callee.text, .host e⟩
    | none =>
      match setup.resolve? callee with
      | some m => run callee.owner m args
      | none => throw ⟨callee.text, .missingMethod⟩

/-- Opens a frame. -/
def openFrame : MachineM Unit :=
  modify fun s =>
    { s with active := s.active + 1, deepest := max s.deepest (s.active + 1) }

/-- Closes a frame.  A fault leaves all frames at once, so none is closed then. -/
def closeFrame : MachineM Unit := modify fun s => { s with active := s.active - 1 }

/-- Runs a method of a class.  `depth` is the number of calls that may still be opened, this one
included. -/
def execute : Nat → String → Method → List Value → MachineM (Option Value)
  | 0, owner, m, _ => throw ⟨m.signature owner, .callDepth⟩
  | depth + 1, owner, m, args => do
    let signature := m.signature owner
    if args.length ≠ m.params.length then
      throw ⟨signature, .arity m.params.length args.length⟩
    let frame : Frame := ⟨signature, .ofList ((m.params.map (·.name)).zip args)⟩
    openFrame
    let call := setup.dispatch (execute depth)
    let result ← m.body.runFrom setup.stepLimit call (setup.stepLimit + 1) frame 0
    closeFrame
    return result

/-- Runs a method at the top level, with a fresh budget. -/
def executeTop (owner : String) (m : Method) (args : List Value) : MachineM (Option Value) := do
  modify MachineState.rewound
  setup.execute (maxDepth + 1) owner m args

/-- Calls a method at the top level, with a fresh budget. -/
def invoke (owner method : String) (args : List Value) : MachineM (Option Value) := do
  modify MachineState.rewound
  setup.dispatch (setup.execute (maxDepth + 1)) ⟨owner, method, .void⟩ args

end Setup

end TraceWeave
