/-!
# Operators

The binary and unary operators of expressions and how they are written.
-/

namespace TraceWeave

/-- A binary operator. -/
inductive BinaryOp where
  /-- Less than. -/
  | lt
  /-- At most. -/
  | le
  /-- Greater than. -/
  | gt
  /-- At least. -/
  | ge
  /-- Equal. -/
  | eq
  /-- Different. -/
  | ne
  /-- Sum. -/
  | add
  /-- Difference. -/
  | sub
  /-- Product. -/
  | mul
  /-- Quotient. -/
  | div
  /-- Remainder. -/
  | rem
  /-- Conjunction, bit by bit. -/
  | and
  /-- Disjunction, bit by bit. -/
  | or
  /-- Exclusive disjunction, bit by bit. -/
  | xor
  /-- Shift to the left. -/
  | shl
  /-- Shift to the right that keeps the sign. -/
  | shr
  /-- Shift to the right that fills with zeros. -/
  | ushr
  /-- Three-way comparison of whole numbers. -/
  | cmp
  /-- Three-way comparison of floats; what is no number counts as less. -/
  | cmpl
  /-- Three-way comparison of floats; what is no number counts as greater. -/
  | cmpg
deriving DecidableEq, Repr

namespace BinaryOp

/-- The symbol of an operator. -/
def symbol : BinaryOp → String
  | .lt => "<"
  | .le => "<="
  | .gt => ">"
  | .ge => ">="
  | .eq => "=="
  | .ne => "!="
  | .add => "+"
  | .sub => "-"
  | .mul => "*"
  | .div => "/"
  | .rem => "%"
  | .and => "&"
  | .or => "|"
  | .xor => "^"
  | .shl => "<<"
  | .shr => ">>"
  | .ushr => ">>>"
  | .cmp => "cmp"
  | .cmpl => "cmpl"
  | .cmpg => "cmpg"

/-- The comparisons, which yield a truth value. -/
def isRelational : BinaryOp → Bool
  | .lt | .le | .gt | .ge | .eq | .ne => true
  | _ => false

/-- The shifts, which take their type from the left operand. -/
def isShift : BinaryOp → Bool
  | .shl | .shr | .ushr => true
  | _ => false

/-- The three-way comparisons, which yield a whole number. -/
def isThreeWay : BinaryOp → Bool
  | .cmp | .cmpl | .cmpg => true
  | _ => false

/-- All binary operators. -/
def all : List BinaryOp :=
  [.lt, .le, .gt, .ge, .eq, .ne, .add, .sub, .mul, .div, .rem, .and, .or, .xor, .shl, .shr, .ushr,
    .cmp, .cmpl, .cmpg]

/-- The name of an operator in class files. -/
def name : BinaryOp → String
  | .lt => "lt"
  | .le => "le"
  | .gt => "gt"
  | .ge => "ge"
  | .eq => "eq"
  | .ne => "ne"
  | .add => "add"
  | .sub => "sub"
  | .mul => "mul"
  | .div => "div"
  | .rem => "rem"
  | .and => "and"
  | .or => "or"
  | .xor => "xor"
  | .shl => "shl"
  | .shr => "shr"
  | .ushr => "ushr"
  | .cmp => "cmp"
  | .cmpl => "cmpl"
  | .cmpg => "cmpg"

/-- The operator with a name. -/
def ofName? (s : String) : Option BinaryOp := all.find? fun op => op.name == s

end BinaryOp

/-- A unary operator. -/
inductive UnaryOp where
  /-- Arithmetic negation. -/
  | neg
  /-- Logical negation. -/
  | not
  /-- Complement, bit by bit. -/
  | bitNot
deriving DecidableEq, Repr

namespace UnaryOp

/-- The symbol of an operator. -/
def symbol : UnaryOp → String
  | .neg => "neg"
  | .not => "!"
  | .bitNot => "~"

/-- The symbol of an operator as it stands before its operand. -/
def before : UnaryOp → String
  | .neg => "neg "
  | op => op.symbol

/-- All unary operators. -/
def all : List UnaryOp := [.neg, .not, .bitNot]

/-- The name of an operator in class files. -/
def name : UnaryOp → String
  | .neg => "neg"
  | .not => "not"
  | .bitNot => "bitnot"

/-- The operator with a name. -/
def ofName? (s : String) : Option UnaryOp := all.find? fun op => op.name == s

end UnaryOp

end TraceWeave
