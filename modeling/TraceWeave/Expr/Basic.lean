import TraceWeave.Expr.Operator
import TraceWeave.Text.Split
import TraceWeave.Value.Basic
/-!
# Expressions

Expression trees over constants, local variables, static fields and static calls.  A node that the
loader could not map is kept with its description: it has a type, but nothing can be computed from
it.
-/

namespace TraceWeave

/-- A local variable: a parameter, a declared variable or a temporary. -/
structure Local where
  /-- The name, which is unique in a method. -/
  name : String
  /-- The declared type. -/
  ty : Ty
deriving DecidableEq, Repr

/-- A static field. -/
structure FieldRef where
  /-- The class that declares the field, with its package. -/
  owner : String
  /-- The name of the field. -/
  name : String
  /-- The declared type. -/
  ty : Ty
deriving DecidableEq, Repr

/-- The part of a class name after its package. -/
def simpleName (className : String) : String :=
  String.ofList (Text.afterLast '.' className.toList)

namespace FieldRef

/-- The name of the field after the name of its class. -/
def qualifiedName (f : FieldRef) : String := f.owner ++ "." ++ f.name

/-- The class of the field without its package. -/
def simpleOwner (f : FieldRef) : String := simpleName f.owner

/-- The field as it is written in a listing. -/
def text (f : FieldRef) : String := "<" ++ f.owner ++ ": " ++ f.ty.text ++ " " ++ f.name ++ ">"

end FieldRef

/-- The method that a call names. -/
structure Callee where
  /-- The class of the method. -/
  owner : String
  /-- The name of the method. -/
  method : String
  /-- The declared type of the result. -/
  returnType : Ty
deriving DecidableEq, Repr

/-- The method as it is written in a listing. -/
def Callee.text (c : Callee) : String := c.owner ++ "." ++ c.method

/-- An expression. -/
inductive Expr where
  /-- A constant. -/
  | value (v : Value)
  /-- A read of a local variable. -/
  | var (x : Local)
  /-- A unary operator and its operand. -/
  | unary (op : UnaryOp) (operand : Expr)
  /-- A binary operator and its operands. -/
  | binary (op : BinaryOp) (left right : Expr)
  /-- A static call. -/
  | call (callee : Callee) (args : List Expr)
  /-- A read of a static field. -/
  | field (f : FieldRef)
  /-- A node that could not be mapped, with the type reported for it. -/
  | unmapped (description : String) (ty : Ty)

namespace Expr

/-- The static type of an expression. -/
def ty : Expr → Ty
  | .value v => v.ty
  | .var x => x.ty
  | .unary .not _ => .boolean
  | .unary .neg e => e.ty.promoteUnary
  | .unary .bitNot e => e.ty.promoteUnary
  | .binary op l r =>
    if op.isRelational then .boolean
    else if op.isThreeWay then .int
    else if op.isShift then l.ty.promoteUnary
    else l.ty.promote r.ty
  | .call callee _ => callee.returnType
  | .field f => f.ty
  | .unmapped _ t => t

/-- A constant or a variable: an expression without parts. -/
def isAtom : Expr → Bool
  | .value _ | .var _ => true
  | _ => false

mutual

/-- The static fields read anywhere in an expression, from left to right. -/
def fieldReads : Expr → List FieldRef
  | .field f => [f]
  | .unary _ e => e.fieldReads
  | .binary _ l r => l.fieldReads ++ r.fieldReads
  | .call _ args => fieldReadsOf args
  | .value _ | .var _ | .unmapped _ _ => []

/-- The static fields read anywhere in a list of expressions. -/
def fieldReadsOf : List Expr → List FieldRef
  | [] => []
  | e :: rest => e.fieldReads ++ fieldReadsOf rest

end

mutual

/-- An expression as it is written in a listing. -/
def text : Expr → String
  | .value v => v.literalText
  | .var x => x.name
  | .unary op e => op.before ++ e.text
  | .binary op l r => l.text ++ " " ++ op.symbol ++ " " ++ r.text
  | .call callee args => callee.text ++ "(" ++ ", ".intercalate (textsOf args) ++ ")"
  | .field f => f.text
  | .unmapped description _ => "opaque[" ++ description ++ "]"

/-- The written forms of a list of expressions. -/
def textsOf : List Expr → List String
  | [] => []
  | e :: rest => e.text :: textsOf rest

end

/-- Arguments as they are written in a listing. -/
def argsText (args : List Expr) : String := ", ".intercalate (textsOf args)

instance : ToString Expr := ⟨text⟩

end Expr

end TraceWeave
