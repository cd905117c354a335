import TraceWeave.Body.Basic
import TraceWeave.Failure
import TraceWeave.Value.Operator
/-!
# Faults

Why a program fails while it runs, and in which method.
-/

namespace TraceWeave

/-- Why a host function fails. -/
inductive HostError where
  /-- An operator that the function uses has no value. -/
  | operator (e : OperatorError)
  /-- An assertion of truth was given something false. -/
  | expectedTrue
  /-- An assertion of falsehood was given something true. -/
  | expectedFalse
  /-- An assertion of equality was given two different values. -/
  | notEqual (expected actual : Value)
  /-- The function was not given exactly one argument. -/
  | needsOneArgument (name : String)
  /-- The function was not given exactly two arguments. -/
  | needsTwoArguments (name : String)
  /-- A reason in the words of the host. -/
  | other (message : String)
deriving DecidableEq

/-- What a host error is reported as. -/
def HostError.message : HostError → String
  | .operator e => e.message
  | .expectedTrue => "assertion failed: expected true"
  | .expectedFalse => "assertion failed: expected false"
  | .notEqual expected actual =>
    "assertion failed: expected " ++ expected.text ++ " but was " ++ actual.text
  | .needsOneArgument name => name ++ " takes one argument"
  | .needsTwoArguments name => name ++ " takes two arguments"
  | .other message => message

/-- Why a method fails. -/
inductive FaultCause where
  /-- The budget of instructions is used up. -/
  | stepLimit (limit : Nat)
  /-- Calls are nested too deeply. -/
  | callDepth
  /-- A method is called with the wrong number of arguments. -/
  | arity (expected given : Nat)
  /-- A local variable is read before it has a value. -/
  | unassigned (name : String)
  /-- A probe captures a local variable that has no value. -/
  | unassignedCapture (name : String)
  /-- The result of a call is used, and there is none. -/
  | noResult (callee : Callee)
  /-- A static field does not exist. -/
  | unknownField (f : FieldRef)
  /-- A node that could not be mapped is evaluated. -/
  | unmapped (description : String)
  /-- A jump leads nowhere. -/
  | missingInstr (label : Label)
  /-- The called method does not exist. -/
  | missingMethod
  /-- An operator has no value. -/
  | operator (e : OperatorError)
  /-- A host function fails. -/
  | host (e : HostError)
deriving DecidableEq

/-- What a cause is reported as. -/
def FaultCause.message : FaultCause → String
  | .stepLimit limit => "step limit " ++ toString limit ++ " exceeded"
  | .callDepth => "call depth exceeded"
  | .arity expected given =>
    "expected " ++ toString expected ++ " arguments, got " ++ toString given
  | .unassigned name => "read of unassigned local " ++ name
  | .unassignedCapture name => "probe reads unassigned local " ++ name
  | .noResult callee => callee.text ++ " returned no value"
  | .unknownField f => "unknown static field " ++ f.qualifiedName
  | .unmapped description => "cannot evaluate opaque expression `" ++ description ++ "`"
  | .missingInstr label => "no instruction " ++ label.text
  | .missingMethod => "no such method or native"
  | .operator e => e.message
  | .host e => e.message

/-- A failure of a running program. -/
structure Fault where
  /-- The signature of the method that fails, or the name of the function that is called. -/
  site : String
  /-- The reason. -/
  cause : FaultCause
deriving DecidableEq

/-- What a fault is reported as. -/
def Fault.message (f : Fault) : String := FailureKind.execution.sentence f.site f.cause.message

end TraceWeave
