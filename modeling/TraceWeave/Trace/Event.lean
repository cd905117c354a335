/-!
# Trace events

What a trace records, and the one-line form in which it is written.  Five kinds of event are
written as flat objects, in which texts stand between quotes as they are; the markers around a test
are plain lines.
-/

namespace TraceWeave

/-- A kind of trace event. -/
inductive EventKind where
  /-- A requested line was reached. -/
  | exercised
  /-- A branch condition was evaluated. -/
  | subconditionChecked
  /-- A binary node of a condition. -/
  | condition
  /-- A captured value. -/
  | var
  /-- A monitored field was read. -/
  | fieldAccessed
  /-- A test began. -/
  | testStart
  /-- A test ended. -/
  | testEnd
  /-- Anything else. -/
  | unknown
deriving DecidableEq, Repr

/-- The name of a kind. -/
def EventKind.name : EventKind → String
  | .exercised => "EXERCISED"
  | .subconditionChecked => "SUBCONDITION_CHECKED"
  | .condition => "CONDITION"
  | .var => "VAR"
  | .fieldAccessed => "FIELD_ACCESSED"
  | .testStart => "TEST_START"
  | .testEnd => "TEST_END"
  | .unknown => "UNKNOWN"

/-- A trace event. -/
inductive Event where
  /-- A requested line was reached. -/
  | exercised (file : String) (line : UInt32)
  /-- A branch condition was evaluated; branches on one line are counted from one. -/
  | subconditionChecked (file : String) (line index : UInt32)
  /-- The operator and the operands of a binary node of a condition. -/
  | condition (file : String) (line index : UInt32) (left operator right : String)
  /-- The value that a local variable held, with its type and where the value came from. -/
  | var (file : String) (line : UInt32) (name ty source value : String)
  /-- A monitored field was read. -/
  | fieldAccessed (file : String) (line : UInt32) (field : String)
  /-- A test began. -/
  | testStart (test : String)
  /-- A test ended. -/
  | testEnd (test : String)
deriving DecidableEq, Repr

namespace Event

/-- The kind of an event. -/
def kind : Event → EventKind
  | .exercised .. => .exercised
  | .subconditionChecked .. => .subconditionChecked
  | .condition .. => .condition
  | .var .. => .var
  | .fieldAccessed .. => .fieldAccessed
  | .testStart _ => .testStart
  | .testEnd _ => .testEnd

/-- What the line of a starting test begins with. -/
def testStartMark : String := "=== START TEST: "

/-- What the line of an ending test begins with. -/
def testEndMark : String := "=== END TEST: "

/-- What the lines of both markers end with. -/
def testMarkEnd : String := " ==="

/-- A text between quotes, as it is. -/
def quoted (s : String) : String := "\"" ++ s ++ "\""

/-- A number in decimal. -/
def number (n : UInt32) : String := toString n.toNat

/-- The keys of an object-shaped event with their written values, in order. -/
def pairs : Event → List (String × String)
  | .exercised file line =>
    [("event", quoted "EXERCISED"), ("file", quoted file), ("line", quoted (number line))]
  | .subconditionChecked file line index =>
    [("event", quoted "SUBCONDITION_CHECKED"), ("file", quoted file),
      ("line", quoted (number line)), ("index", number index)]
  | .condition file line index left operator right =>
    [("event", quoted "CONDITION"), ("file", quoted file), ("line", quoted (number line)),
      ("index", number index), ("OP_left", quoted left), ("operator", quoted operator),
      ("OP_right", quoted right)]
  | .var file line name ty source value =>
    [("event", quoted "VAR"), ("file", quoted file), ("line", quoted (number line)),
      ("name", quoted name), ("type", quoted ty), ("source", quoted source),
      ("value", quoted value)]
  | .fieldAccessed file line field =>
    [("event", quoted "FIELD_ACCESSED"), ("file", quoted file), ("line", quoted (number line)),
      ("field", quoted field)]
  | .testStart _ | .testEnd _ => []

/-- A flat object from keys and written values. -/
def flatObject (pairs : List (String × String)) : String :=
  "\x7b" ++ ",".intercalate (pairs.map fun p => quoted p.1 ++ ":" ++ p.2) ++ "\x7d"

/-- The line that records an event. -/
def encode : Event → String
  | .testStart test => testStartMark ++ test ++ testMarkEnd
  | .testEnd test => testEndMark ++ test ++ testMarkEnd
  | e => flatObject e.pairs

instance : ToString Event := ⟨encode⟩

end Event

end TraceWeave
