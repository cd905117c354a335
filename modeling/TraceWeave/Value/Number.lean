import TraceWeave.Value.Basic
/-!
# The numeric view of values

Arithmetic sees a value as one of four kinds of number, narrow to wide; characters count as 32-bit
whole numbers.
-/

namespace TraceWeave

open Floating

/-- A number of one of the four kinds of arithmetic. -/
inductive Number where
  /-- A 32-bit whole number. -/
  | int (n : Int32)
  /-- A 64-bit whole number. -/
  | long (n : Int64)
  /-- A 32-bit float. -/
  | float (x : Float32)
  /-- A 64-bit float. -/
  | double (x : Float)
deriving DecidableEq

namespace Number

/-- The rank of a kind: of two operands the wider kind decides. -/
def rank : Number → Nat
  | .int _ => 0
  | .long _ => 1
  | .float _ => 2
  | .double _ => 3

/-- The number as a 64-bit whole number; floats are truncated and held within bounds. -/
def toInt64 : Number → Int64
  | .int n => n.toInt64
  | .long n => n
  | .float x => truncate (singleNegative x) (singleSize x)
  | .double x => truncate (doubleNegative x) (doubleSize x)

/-- The number as a 64-bit float, rounded to nearest. -/
def toDouble : Number → Float
  | .int n => doubleOfInt n.toInt
  | .long n => doubleOfInt n.toInt
  | .float x => widen x
  | .double x => x

/-- The number as a 32-bit float, by way of a 64-bit one. -/
def toSingle (n : Number) : Float32 := narrow n.toDouble

end Number

/-- The number that a value is, if it is one. -/
def Value.number? : Value → Option Number
  | .int n => some (.int n)
  | .char c => some (.int (.ofNat c.toNat))
  | .long n => some (.long n)
  | .float x => some (.float x)
  | .double x => some (.double x)
  | .bool _ | .str _ | .null => none

end TraceWeave
