import TraceWeave.Machine.Tests

/-!
# Courses of runs

The machine is a function, and every run ends because it is given a number that goes down: its loop
over the instructions of a body gets as many rounds as the budget can ask for, and its methods get
the number of calls that may still be opened.  Here a run is described by its course: from a state,
through everything that happens, to a result.  A course only follows the program.  The loop goes on
as long as it does (`Body.Goes`) and calls nest as deep as they do (`Setup.Executes`), so a run that
went on forever would have no course at all; what stops it are the checks of the budget and of the
depth.

What happens in a course is written down apart from the counters of the machine, and nested calls
write to the same log.
-/

namespace TraceWeave

/-- What happens in a run, as far as its bounds are about it. -/
inductive Happening where
  /-- A frame is opened. -/
  | opened
  /-- An instruction is executed. -/
  | executed (i : Instr)
  /-- A frame is closed. -/
  | closed

/-- How a computation may go: from a state, through a log, to a result. -/
abbrev Course (ε α : Type) :=
  MachineState → List ε → EStateM.Result Fault MachineState α → Prop

namespace Course

variable {ε α β : Type}

/-- A computation that logs nothing. -/
def of (x : MachineM α) : Course ε α := fun s log r => log = [] ∧ r = x s

/-- One course after another; the second one depends on the value of the first. -/
inductive bind (c : Course ε α) (d : α → Course ε β) :
    MachineState → List ε → EStateM.Result Fault MachineState β → Prop
  | failed {s t log f} (h : c s log (.error f t)) : bind c d s log (.error f t)
  | done {s t log log' a r} (h : c s log (.ok a t)) (h' : d a t log' r) :
    bind c d s (log ++ log') r

/-- An instruction is about to be executed: it is, if the budget has room for it. -/
inductive counted (limit : Nat) (frame : Frame) (i : Instr) :
    MachineState → List Happening → EStateM.Result Fault MachineState Unit → Prop
  | room {s : MachineState} (h : s.steps < limit) :
    counted limit frame i s [.executed i] (.ok () { s with steps := s.steps + 1 })
  | full {s : MachineState} (h : limit ≤ s.steps) :
    counted limit frame i s [] (.error ⟨frame.signature, .stepLimit limit⟩ s)

/-- A course in a frame of its own.  A fault leaves all frames at once, so none is closed then. -/
inductive framed (c : Course Happening α) :
    MachineState → List Happening → EStateM.Result Fault MachineState α → Prop
  | failed {s t u log f} (hopen : Setup.openFrame s = .ok () t) (h : c t log (.error f u)) :
    framed c s (.opened :: log) (.error f u)
  | done {s t u v log a} (hopen : Setup.openFrame s = .ok () t) (h : c t log (.ok a u))
      (hclose : Setup.closeFrame u = .ok () v) :
    framed c s (.opened :: (log ++ [.closed])) (.ok a v)

/-- A run at the top level, which has a log of its own. -/
def single (c : Course Happening α) : Course (List Happening) α :=
  fun s logs r => ∃ log, logs = [log] ∧ c s log r

/-- A course whose fault is a result. -/
def attempted (c : Course ε α) : Course ε (Except Fault α) :=
  fun s log r => ∃ r', c s log r' ∧ r = Setup.attempt (fun _ => r') s

end Course

/-- The courses of calls. -/
abbrev Calls := Callee → List Value → Course Happening (Option Value)

/-- A way to call methods for computations that call none. -/
def Call.unused : Call := fun _ _ => return none

mutual

/-- The courses of an expression in a frame. -/
def Expr.course (calls : Calls) (frame : Frame) : Expr → Course Happening Value
  | .unary op e => .bind (e.course calls frame) fun v => .of (frame.operator (Value.unary op v))
  | .binary op l r =>
    .bind (l.course calls frame) fun v => .bind (r.course calls frame) fun w =>
      .of (frame.operator (Value.binary op v w))
  | .call callee args =>
    .bind (Expr.courseAll calls frame args) fun values => .bind (calls callee values) fun result =>
      match result with
      | some v => .of (pure v)
      | none => .of (frame.fail (.noResult callee))
  | e => .of (e.eval .unused frame)

/-- The courses of expressions in a frame, from left to right. -/
def Expr.courseAll (calls : Calls) (frame : Frame) : List Expr → Course Happening (List Value)
  | [] => .of (pure [])
  | e :: rest =>
    .bind (e.course calls frame) fun v => .bind (Expr.courseAll calls frame rest) fun values =>
      .of (pure (v :: values))

end

/-- The courses of the operation of the instruction at a position. -/
def Operation.course (calls : Calls) (b : Body) (frame : Frame) (position : Nat) :
    Operation → Course Happening Control
  | .assign target value =>
    .bind (value.course calls frame) fun v =>
      .of (Operation.execute .unused b frame position (.assign target (.value v)))
  | .branch condition target =>
    .bind (condition.course calls frame) fun v =>
      .of (Operation.execute .unused b frame position (.branch (.value v) target))
  | .invoke callee args =>
    .bind (Expr.courseAll calls frame args) fun values => .bind (calls callee values) fun _ =>
      .of (pure (.next frame (position + 1)))
  | .ret (some value) =>
    .bind (value.course calls frame) fun v => .of (pure (.finish (some v)))
  | op => .of (op.execute .unused b frame position)

/-- The courses of the instruction at a position. -/
def Instr.course (limit : Nat) (calls : Calls) (b : Body) (frame : Frame) (position : Nat)
    (i : Instr) : Course Happening Control :=
  .bind (.counted limit frame i) fun _ => i.op.course calls b frame position

/-- The courses of a body from a position, until the method returns or control falls off the end. -/
inductive Body.Goes (limit : Nat) (calls : Calls) (b : Body) : Frame → Nat →
    MachineState → List Happening → EStateM.Result Fault MachineState (Option Value) → Prop
  | fallsOff {frame position s} (h : b.instrs[position]? = none) :
    Goes limit calls b frame position s [] (.ok none s)
  | fails {frame position i s log f t} (h : b.instrs[position]? = some i)
      (hinstr : i.course limit calls b frame position s log (.error f t)) :
    Goes limit calls b frame position s log (.error f t)
  | finishes {frame position i s log result t} (h : b.instrs[position]? = some i)
      (hinstr : i.course limit calls b frame position s log (.ok (.finish result) t)) :
    Goes limit calls b frame position s log (.ok result t)
  | goesOn {frame position i s log frame' position' t log' r} (h : b.instrs[position]? = some i)
      (hinstr : i.course limit calls b frame position s log (.ok (.next frame' position') t))
      (hrest : Goes limit calls b frame' position' t log' r) :
    Goes limit calls b frame position s (log ++ log') r

namespace Setup

variable (setup : Setup)

/-- The courses of a call; `run` gives those of the methods of the program. -/
def dispatchCourse (run : String → Method → List Value → Course Happening (Option Value)) : Calls :=
  fun callee args =>
    .bind (.of (countCall callee)) fun _ =>
      match setup.natives callee.owner callee.method with
      | some function =>
        .bind (.of (noteHostCall callee args)) fun _ =>
          match function args with
          | .ok v => .of (pure (some v))
          | .error e => .of (throw ⟨callee.text, .host e⟩)
      | none =>
        match setup.resolve? callee with
        | some m => run callee.owner m args
        | none => .of (throw ⟨callee.text, .missingMethod⟩)

/-- The courses of a method of a class at a depth of nesting; `run` gives those of the methods that
it calls. -/
def methodCourse (run : Nat → String → Method → List Value → Course Happening (Option Value))
    (depth : Nat) (owner : String) (m : Method) (args : List Value) :
    Course Happening (Option Value) :=
  if maxDepth < depth then .of (throw ⟨m.signature owner, .callDepth⟩)
  else if args.length ≠ m.params.length then
    .of (throw ⟨m.signature owner, .arity m.params.length args.length⟩)
  else
    .framed (m.body.Goes setup.stepLimit (setup.dispatchCourse (run (depth + 1)))
      ⟨m.signature owner, .ofList ((m.params.map (·.name)).zip args)⟩ 0)

/-- The courses of methods of classes by the depth of nesting.  They are courses as above, for calls
that are courses of methods themselves, and nothing else is one. -/
inductive Executes : Nat → String → Method → List Value →
    MachineState → List Happening → EStateM.Result Fault MachineState (Option Value) → Prop
  | of_calls {run : Nat → String → Method → List Value → Course Happening (Option Value)}
      (hrun : ∀ {depth owner m args s log r}, run depth owner m args s log r →
        Executes depth owner m args s log r)
      {depth owner m args s log r} (h : setup.methodCourse run depth owner m args s log r) :
    Executes depth owner m args s log r

/-- The courses of a method at the top level, which starts with a fresh budget. -/
def executeTopCourse (owner : String) (m : Method) (args : List Value) :
    Course Happening (Option Value) :=
  fun s => setup.Executes 0 owner m args s.rewound

/-- The courses of a call at the top level, which starts with a fresh budget. -/
def invokeCourse (owner method : String) (args : List Value) : Course Happening (Option Value) :=
  fun s => setup.dispatchCourse (setup.Executes 0) ⟨owner, method, .void⟩ args s.rewound

/-- The courses of methods at the top level, in order, until one fails. -/
def runAllCourse : List (String × Method) → Course (List Happening) Unit
  | [] => .of (pure ())
  | (owner, m) :: rest =>
    .bind (.single (setup.executeTopCourse owner m [])) fun _ => runAllCourse rest

/-- The courses of the static initializers. -/
def initializeCourse : Course (List Happening) Unit :=
  .bind (.of get) fun s =>
    if s.initialized then .of (pure ())
    else .bind (.of (modify fun s => { s with initialized := true })) fun _ =>
      setup.runAllCourse setup.initializers

/-- The courses of a test. -/
def runTestCourse (owner : String) (m : Method) : Course (List Happening) TestRun :=
  .bind (.attempted (.single (setup.executeTopCourse owner m []))) fun result =>
    match result with
    | .ok _ => .of (pure ⟨m.signature owner, none⟩)
    | .error f => .of (pure ⟨m.signature owner, some f⟩)

/-- The courses of tests, in order. -/
def runEachCourse : List (String × Method) → Course (List Happening) (List TestRun)
  | [] => .of (pure [])
  | (owner, m) :: rest =>
    .bind (setup.runTestCourse owner m) fun run => .bind (runEachCourse rest) fun runs =>
      .of (pure (run :: runs))

/-- The courses of the static initializers and then every test. -/
def runTestsCourse (settings : Settings) : Course (List Happening) (List TestRun) :=
  .bind setup.initializeCourse fun _ => setup.runEachCourse (setup.tests settings)

end Setup

end TraceWeave
