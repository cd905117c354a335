import TraceWeave.Expr.Basic
/-!
# Probes

A probe is an instruction that offers one event to the recorder.  All that it reports is fixed when
it is woven in, except for the value that a capture reads from a local variable.
-/

namespace TraceWeave

/-- Where a captured value comes from. -/
inductive Source where
  /-- A constant that was put into a temporary. -/
  | constant
  /-- A variable of the program, or a computed temporary. -/
  | variable
deriving DecidableEq, Repr

/-- The name of a source. -/
def Source.name : Source → String
  | .constant => "constant"
  | .variable => "variable"

/-- A call into the recorder. -/
inductive Probe where
  /-- A requested line is reached. -/
  | lineReached (file : String) (line : UInt32)
  /-- A branch condition is about to be evaluated; branches on one line are counted from one. -/
  | branchReached (file : String) (line index : UInt32)
  /-- The operator and the operands of a binary node of a condition. -/
  | condition (file : String) (line index : UInt32) (left : String) (op : BinaryOp)
      (right : String)
  /-- The value of a local variable. -/
  | capture (file : String) (line : UInt32) (var : Local) (source : Source)
  /-- A monitored field is about to be read. -/
  | fieldRead (file : String) (line : UInt32) (field : String)
  /-- A test begins. -/
  | testStart (test : String)
  /-- A test ends. -/
  | testEnd (test : String)
deriving DecidableEq, Repr

namespace Probe

/-- The kind of a probe, as traces name it. -/
def kindName : Probe → String
  | .lineReached .. => "EXERCISED"
  | .branchReached .. => "SUBCONDITION_CHECKED"
  | .condition .. => "CONDITION"
  | .capture .. => "VAR"
  | .fieldRead .. => "FIELD_ACCESSED"
  | .testStart _ => "TEST_START"
  | .testEnd _ => "TEST_END"

/-- A file and a line, as listings show them. -/
def site (file : String) (line : UInt32) : String := file ++ ":" ++ toString line.toNat

/-- A probe as it is written in a listing. -/
def text (p : Probe) : String :=
  p.kindName ++ " " ++
    match p with
    | .lineReached file line => site file line
    | .branchReached file line index => site file line ++ " [" ++ toString index.toNat ++ "]"
    | .condition file line index left op right =>
      site file line ++ " [" ++ toString index.toNat ++ "] " ++ left ++ " " ++ op.symbol ++ " " ++
        right
    | .capture file line x source =>
      site file line ++ " " ++ x.ty.text ++ " " ++ x.name ++ " (" ++ source.name ++ ")"
    | .fieldRead file line field => site file line ++ " " ++ field
    | .testStart test => test
    | .testEnd test => test

end Probe

end TraceWeave
