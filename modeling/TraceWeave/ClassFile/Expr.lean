import TraceWeave.ClassFile.Value
import TraceWeave.Expr.Basic
/-!
# Expressions in class files

An expression is a variant named for its node.  The number in front of every reader is the number of
levels of nesting that may still be opened.
-/

namespace TraceWeave

open Json

/-- The document of a local variable. -/
def Local.toJson (x : Local) : Json := record [("name", .string x.name), ("ty", x.ty.toJson)]

/-- Reads a local variable. -/
def Local.ofJson? : Nat → Json → Option Local
  | 0, _ => none
  | levels + 1, j => do
    match ← fields? ["name", "ty"] j with
    | [some name, some ty] => return { name := ← name.text?, ty := ← Ty.ofJson? levels ty }
    | _ => none

/-- The document of a static field. -/
def FieldRef.toJson (f : FieldRef) : Json :=
  record [("class", .string f.owner), ("name", .string f.name), ("ty", f.ty.toJson)]

/-- Reads a static field. -/
def FieldRef.ofJson? : Nat → Json → Option FieldRef
  | 0, _ => none
  | levels + 1, j => do
    match ← fields? ["class", "name", "ty"] j with
    | [some owner, some name, some ty] =>
      return { owner := ← owner.text?, name := ← name.text?, ty := ← Ty.ofJson? levels ty }
    | _ => none

/-- The document of a called method. -/
def Callee.toJson (c : Callee) : Json :=
  record [("class", .string c.owner), ("method", .string c.method),
    ("return_type", c.returnType.toJson)]

/-- Reads a called method. -/
def Callee.ofJson? : Nat → Json → Option Callee
  | 0, _ => none
  | levels + 1, j => do
    match ← fields? ["class", "method", "return_type"] j with
    | [some owner, some method, some returnType] =>
      return { owner := ← owner.text?, method := ← method.text?,
               returnType := ← Ty.ofJson? levels returnType }
    | _ => none

/-- The variant of an operator that carries nothing, by name. -/
def operatorName? (levels : Nat) (j : Json) : Option String :=
  match variant? j with
  | some (name, none) => some name
  | some (name, content) => if levels ≠ 0 && isUnit content then some name else none
  | none => none

/-- Reads a binary operator. -/
def BinaryOp.ofJson? (levels : Nat) (j : Json) : Option BinaryOp :=
  (operatorName? levels j).bind BinaryOp.ofName?

/-- Reads a unary operator. -/
def UnaryOp.ofJson? (levels : Nat) (j : Json) : Option UnaryOp :=
  (operatorName? levels j).bind UnaryOp.ofName?

namespace Expr

mutual

/-- The document of an expression. -/
def toJson (floats : FloatForm) : Expr → Json
  | .value v => variant "literal" (v.toJson floats)
  | .var x => variant "local" x.toJson
  | .unary op e =>
    variant "unary" (record [("op", .string op.name), ("operand", e.toJson floats)])
  | .binary op l r =>
    variant "binary"
      (record [("op", .string op.name), ("left", l.toJson floats), ("right", r.toJson floats)])
  | .call callee args =>
    variant "call" (record [("target", callee.toJson), ("args", .array (toJsonAll floats args))])
  | .field f => variant "field_read" f.toJson
  | .unmapped description ty =>
    variant "opaque" (record [("description", .string description), ("ty", ty.toJson)])

/-- The documents of expressions. -/
def toJsonAll (floats : FloatForm) : List Expr → List Json
  | [] => []
  | e :: rest => e.toJson floats :: toJsonAll floats rest

end

/-- Reads an expression. -/
def ofJson? : Nat → Json → Option Expr
  | levels + 1, .object [(some node, content)] =>
    match node, levels with
    | "literal", levels => (Value.ofJson? levels content).map .value
    | "local", levels => (Local.ofJson? levels content).map .var
    | "unary", levels + 1 => do
      match ← fields? ["op", "operand"] content with
      | [some op, some e] => return .unary (← UnaryOp.ofJson? levels op) (← ofJson? levels e)
      | _ => none
    | "binary", levels + 1 => do
      match ← fields? ["op", "left", "right"] content with
      | [some op, some l, some r] =>
        return .binary (← BinaryOp.ofJson? levels op) (← ofJson? levels l) (← ofJson? levels r)
      | _ => none
    | "call", levels + 2 => do
      match ← fields? ["target", "args"] content with
      | [some callee, some (.array args)] =>
        return .call (← Callee.ofJson? (levels + 1) callee) (← args.mapM (ofJson? levels))
      | _ => none
    | "field_read", levels => (FieldRef.ofJson? levels content).map .field
    | "opaque", levels + 1 => do
      match ← fields? ["description", "ty"] content with
      | [some description, some ty] =>
        return .unmapped (← description.text?) (← Ty.ofJson? levels ty)
      | _ => none
    | _, _ => none
  | _, _ => none

end Expr

end TraceWeave
