/-!
# Static types

The types of the instruction set, with the numeric promotions that give a compound expression its
type.
-/

namespace TraceWeave

/-- A static type. -/
inductive Ty where
  /-- 32-bit whole numbers. -/
  | int
  /-- 64-bit whole numbers. -/
  | long
  /-- 32-bit floats. -/
  | float
  /-- 64-bit floats. -/
  | double
  /-- Truth values. -/
  | boolean
  /-- Characters. -/
  | char
  /-- 8-bit whole numbers. -/
  | byte
  /-- 16-bit whole numbers. -/
  | short
  /-- No value. -/
  | void
  /-- Objects of the named class. -/
  | ref (name : String)
  /-- Arrays of the element type. -/
  | array (element : Ty)
deriving DecidableEq, Repr

namespace Ty

/-- The type of character strings. -/
def string : Ty := .ref "java.lang.String"

/-- The type of all objects. -/
def object : Ty := .ref "java.lang.Object"

/-- The types of whole numbers; characters count as such. -/
def isIntegral : Ty → Bool
  | .int | .long | .byte | .short | .char => true
  | _ => false

/-- The types of numbers. -/
def isNumeric : Ty → Bool
  | .float | .double => true
  | t => t.isIntegral

/-- The types whose values are written out in a trace. -/
def isTraceable : Ty → Bool
  | .ref _ | .array _ | .void => false
  | _ => true

/-- The type in which two operands meet: truth values stay, otherwise the widest of `double`,
`float`, `long` and `int` that either side calls for. -/
def promote : Ty → Ty → Ty
  | .boolean, .boolean => .boolean
  | .double, _ | _, .double => .double
  | .float, _ | _, .float => .float
  | .long, _ | _, .long => .long
  | _, _ => .int

/-- The type in which a single operand is computed. -/
def promoteUnary : Ty → Ty
  | .long => .long
  | .float => .float
  | .double => .double
  | .boolean => .boolean
  | _ => .int

/-- The name of a type. -/
def text : Ty → String
  | .int => "int"
  | .long => "long"
  | .float => "float"
  | .double => "double"
  | .boolean => "boolean"
  | .char => "char"
  | .byte => "byte"
  | .short => "short"
  | .void => "void"
  | .ref name => name
  | .array element => element.text ++ "[]"

instance : ToString Ty := ⟨text⟩

end Ty

end TraceWeave
