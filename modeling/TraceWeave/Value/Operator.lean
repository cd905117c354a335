import TraceWeave.Expr.Operator
import TraceWeave.Value.Number
/-!
# Operators on values

What the operators of expressions compute.  Whole numbers wrap at their width, division truncates
and fails on zero, shifts use the low bits of their distance; floats follow IEEE 754, and a
comparison with what is no number is false except for "different".
-/

namespace TraceWeave

open Floating

/-- Why an operator has no value. -/
inductive OperatorError where
  /-- An operand is no number. -/
  | needsNumbers (op : BinaryOp) (left right : Value)
  /-- A whole number is divided by zero. -/
  | divisionByZero
  /-- An operand is no whole number. -/
  | needsWholes (op : BinaryOp)
  /-- The left operand of a shift is no whole number. -/
  | needsWholeLeft (op : BinaryOp)
  /-- The operand of a unary operator does not suit it. -/
  | unsuitable (op : UnaryOp) (operand : Value)
  /-- A condition has no truth value. -/
  | notBoolean (v : Value)
deriving DecidableEq

/-- What an operator error is reported as. -/
def OperatorError.message : OperatorError → String
  | .needsNumbers op left right =>
    "operator " ++ op.symbol ++ " needs numeric operands, found " ++ left.kindText ++ " and " ++
      right.kindText
  | .divisionByZero => "ArithmeticException: / by zero"
  | .needsWholes op => "operator " ++ op.symbol ++ " needs integral operands"
  | .needsWholeLeft op => "operator " ++ op.symbol ++ " needs an integral left operand"
  | .unsuitable op operand => "cannot apply " ++ op.symbol ++ " to " ++ operand.kindText
  | .notBoolean v => "expected boolean, found " ++ v.kindText

namespace Value

/-- The truth value of a condition: a truth value, or whether a 32-bit number differs from zero. -/
def truth : Value → Except OperatorError Bool
  | .bool b => .ok b
  | .int n => .ok (n != 0)
  | v => .error (.notBoolean v)

/-- The order of two doubles; there is none if either is no number. -/
def compareDoubles (x y : Float) : Option Ordering :=
  if x < y then some .lt else if x == y then some .eq else if y < x then some .gt else none

/-- The order of two numbers, as floats if either is one. -/
def compareNumbers (x y : Number) : Option Ordering :=
  if 2 ≤ max x.rank y.rank then compareDoubles x.toDouble y.toDouble
  else some (compare x.toInt64 y.toInt64)

/-- Whether an order satisfies a comparison. -/
def satisfies (op : BinaryOp) : Option Ordering → Bool
  | none => op == .ne
  | some order =>
    match op with
    | .lt => order == .lt
    | .le => order != .gt
    | .gt => order == .gt
    | .ge => order != .lt
    | .eq => order == .eq
    | _ => order != .eq

/-- The comparisons.  What is not a pair of numbers can only be equal or different. -/
def relational (op : BinaryOp) (l r : Value) : Except OperatorError Bool :=
  match l.number?, r.number? with
  | some x, some y => .ok (satisfies op (compareNumbers x y))
  | _, _ =>
    match op with
    | .eq => .ok (decide (l = r))
    | .ne => .ok (decide (l ≠ r))
    | _ => .error (.needsNumbers op l r)

/-- Both operands as numbers. -/
def numbers (op : BinaryOp) (l r : Value) : Except OperatorError (Number × Number) :=
  match l.number?, r.number? with
  | some x, some y => .ok (x, y)
  | _, _ => .error (.needsNumbers op l r)

/-- The arithmetic operators on 32-bit whole numbers. -/
def intArithmetic (op : BinaryOp) (a b : Int32) : Int32 :=
  match op with
  | .add => a + b
  | .sub => a - b
  | .mul => a * b
  | .div => a / b
  | _ => a % b

/-- The arithmetic operators on 64-bit whole numbers. -/
def longArithmetic (op : BinaryOp) (a b : Int64) : Int64 :=
  match op with
  | .add => a + b
  | .sub => a - b
  | .mul => a * b
  | .div => a / b
  | _ => a % b

/-- The arithmetic operators on 32-bit floats. -/
def floatArithmetic (op : BinaryOp) (a b : Float32) : Float32 :=
  match op with
  | .add => a + b
  | .sub => a - b
  | .mul => a * b
  | .div => a / b
  | _ => singleRemainder a b

/-- The arithmetic operators on 64-bit floats. -/
def doubleArithmetic (op : BinaryOp) (a b : Float) : Float :=
  match op with
  | .add => a + b
  | .sub => a - b
  | .mul => a * b
  | .div => a / b
  | _ => doubleRemainder a b

/-- Sum, difference, product, quotient and remainder, in the wider kind of the two operands. -/
def arithmetic (op : BinaryOp) (l r : Value) : Except OperatorError Value := do
  let (x, y) ← numbers op l r
  let divides := op == .div || op == .rem
  match max x.rank y.rank with
  | 0 =>
    if divides && y.toInt64 == 0 then throw .divisionByZero
    return .int (intArithmetic op x.toInt64.toInt32 y.toInt64.toInt32)
  | 1 =>
    if divides && y.toInt64 == 0 then throw .divisionByZero
    return .long (longArithmetic op x.toInt64 y.toInt64)
  | 2 => return .float (floatArithmetic op x.toSingle y.toSingle)
  | _ => return .double (doubleArithmetic op x.toDouble y.toDouble)

/-- The operators that work bit by bit, on truth values. -/
def logical (op : BinaryOp) (a b : Bool) : Bool :=
  match op with
  | .and => a && b
  | .or => a || b
  | _ => a != b

/-- The operators that work bit by bit, on 64 bits. -/
def bits (op : BinaryOp) (a b : Int64) : Int64 :=
  match op with
  | .and => a &&& b
  | .or => a ||| b
  | _ => a ^^^ b

/-- The operators that work bit by bit: on two truth values, or on whole numbers. -/
def bitwise (op : BinaryOp) (l r : Value) : Except OperatorError Value := do
  match l, r with
  | .bool a, .bool b => return .bool (logical op a b)
  | l, r =>
    let (x, y) ← numbers op l r
    match max x.rank y.rank with
    | 0 => return .int (bits op x.toInt64 y.toInt64).toInt32
    | 1 => return .long (bits op x.toInt64 y.toInt64)
    | _ => throw (.needsWholes op)

/-- A 32-bit number shifted by the low five bits of a distance. -/
def shiftInt (op : BinaryOp) (a : Int32) (distance : Int64) : Int32 :=
  let n := (distance &&& 31).toInt32
  match op with
  | .shl => a <<< n
  | .shr => a >>> n
  | _ => (a.toUInt32 >>> n.toUInt32).toInt32

/-- A 64-bit number shifted by the low six bits of a distance. -/
def shiftLong (op : BinaryOp) (a : Int64) (distance : Int64) : Int64 :=
  let n := distance &&& 63
  match op with
  | .shl => a <<< n
  | .shr => a >>> n
  | _ => (a.toUInt64 >>> n.toUInt64).toInt64

/-- The shifts; the left operand alone decides on width and result. -/
def shift (op : BinaryOp) (l r : Value) : Except OperatorError Value := do
  let (x, y) ← numbers op l r
  match x with
  | .int a => return .int (shiftInt op a y.toInt64)
  | .long a => return .long (shiftLong op a y.toInt64)
  | _ => throw (.needsWholeLeft op)

/-- The number that stands for an order; without one it depends on the operator. -/
def orderNumber (op : BinaryOp) : Option Ordering → Int32
  | some .lt => -1
  | some .eq => 0
  | some .gt => 1
  | none => if op == .cmpg then 1 else -1

/-- The three-way comparisons: of 64-bit whole numbers, or of 64-bit floats. -/
def threeWay (op : BinaryOp) (l r : Value) : Except OperatorError Value := do
  let (x, y) ← numbers op l r
  let order :=
    if op == .cmp then some (compare x.toInt64 y.toInt64)
    else compareDoubles x.toDouble y.toDouble
  return .int (orderNumber op order)

/-- The value of a binary operator. -/
def binary (op : BinaryOp) (l r : Value) : Except OperatorError Value :=
  match op with
  | .lt | .le | .gt | .ge | .eq | .ne => (relational op l r).map .bool
  | .and | .or | .xor => bitwise op l r
  | .shl | .shr | .ushr => shift op l r
  | .cmp | .cmpl | .cmpg => threeWay op l r
  | .add | .sub | .mul | .div | .rem => arithmetic op l r

/-- The value of a unary operator. -/
def unary (op : UnaryOp) (v : Value) : Except OperatorError Value :=
  match op, v with
  | .not, .bool b => .ok (.bool !b)
  | .not, v => .error (.unsuitable op v)
  | .neg, v =>
    match v.number? with
    | some (.int n) => .ok (.int (-n))
    | some (.long n) => .ok (.long (-n))
    | some (.float x) => .ok (.float (-x))
    | some (.double x) => .ok (.double (-x))
    | none => .error (.unsuitable op v)
  | .bitNot, v =>
    match v.number? with
    | some (.int n) => .ok (.int (~~~n))
    | some (.long n) => .ok (.long (~~~n))
    | _ => .error (.unsuitable op v)

end Value

end TraceWeave
