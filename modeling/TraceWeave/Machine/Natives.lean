import TraceWeave.Machine.Fault
/-!
# Host functions

Functions that programs can call without a body of their own, by class and name.
-/

namespace TraceWeave

/-- A host function. -/
abbrev HostFunction := List Value → Except HostError Value

/-- Host functions by class and name. -/
abbrev Natives := String → String → Option HostFunction

namespace Natives

/-- No host functions. -/
def none : Natives := fun _ _ => .none

/-- Turns an operator error into a host error. -/
def lift {α : Type} (x : Except OperatorError α) : Except HostError α := x.mapError .operator

/-- Asserts that the argument is true. -/
def assertTrue : HostFunction
  | [v] => do
    if ← lift v.truth then return .null
    throw .expectedTrue
  | _ => throw (.needsOneArgument "assertTrue")

/-- Asserts that the argument is false. -/
def assertFalse : HostFunction
  | [v] => do
    if ← lift v.truth then throw .expectedFalse
    return .null
  | _ => throw (.needsOneArgument "assertFalse")

/-- Asserts that the two arguments are equal. -/
def assertEquals : HostFunction
  | [expected, actual] => do
    if ← lift (Value.relational .eq expected actual) then return .null
    throw (.notEqual expected actual)
  | _ => throw (.needsTwoArguments "assertEquals")

/-- The absolute value of the argument. -/
def abs : HostFunction
  | [v] => do
    if ← lift (Value.relational .lt v (.int 0)) then lift (Value.unary .neg v)
    else return v
  | _ => throw (.needsOneArgument "abs")

/-- The greater of the two arguments. -/
def max : HostFunction
  | [a, b] => do
    if ← lift (Value.relational .ge a b) then return a
    return b
  | _ => throw (.needsTwoArguments "max")

/-- The lesser of the two arguments. -/
def min : HostFunction
  | [a, b] => do
    if ← lift (Value.relational .le a b) then return a
    return b
  | _ => throw (.needsTwoArguments "min")

/-- The classes under which assertions are found. -/
def assertionClasses : List String := ["Assert", "org.junit.Assert"]

/-- The classes under which arithmetic is found. -/
def arithmeticClasses : List String := ["Math", "java.lang.Math"]

/-- Assertions and a little arithmetic. -/
def builtins : Natives := fun owner name =>
  if assertionClasses.contains owner then
    match name with
    | "assertTrue" => some assertTrue
    | "assertFalse" => some assertFalse
    | "assertEquals" => some assertEquals
    | _ => .none
  else if arithmeticClasses.contains owner then
    match name with
    | "abs" => some abs
    | "max" => some max
    | "min" => some min
    | _ => .none
  else .none

end Natives

end TraceWeave
