import TraceWeave.Program
import TraceWeave.Proofs.Expr.Induction
import Mathlib.Data.List.Basic

/-!
# The constants of a class

A class file holds constants in the initial values of fields and all over the expressions of
methods.  `literals` are the constants that a term holds, and `traverse f` puts `f v` in the place
of every constant `v`, if `f` gives something for all of them (`isSome_traverse`).
-/

namespace TraceWeave

/-- Something comes of a list if something comes of all its members. -/
theorem isSome_mapM {α β : Type} {f : α → Option β} {l : List α} :
    (l.mapM f).isSome ↔ ∀ a ∈ l, (f a).isSome := by
  induction l with
  | nil => simp
  | cons a l ih =>
    rw [List.mapM_cons, List.forall_mem_cons, ← ih]
    cases f a with
    | none => simp
    | some b => cases l.mapM f <;> simp

theorem mapM_eq_self {α : Type} {f : α → Option α} {l : List α} (h : ∀ a ∈ l, f a = some a) :
    l.mapM f = some l := by
  induction l with
  | nil => rfl
  | cons a l ih =>
    obtain ⟨ha, hl⟩ := List.forall_mem_cons.1 h
    rw [List.mapM_cons, ha, ih hl]
    rfl

variable {f : Value → Option Value}

namespace Expr

mutual

/-- The constants that an expression holds. -/
def literals : Expr → List Value
  | .value v => [v]
  | .unary _ e => e.literals
  | .binary _ l r => l.literals ++ r.literals
  | .call _ args => literalsOf args
  | .var _ | .field _ | .unmapped _ _ => []

/-- The constants that expressions hold. -/
def literalsOf : List Expr → List Value
  | [] => []
  | e :: rest => e.literals ++ literalsOf rest

end

mutual

/-- The expression with other constants. -/
def traverse (f : Value → Option Value) : Expr → Option Expr
  | .value v => (f v).map .value
  | .unary op e => do return .unary op (← e.traverse f)
  | .binary op l r => do return .binary op (← l.traverse f) (← r.traverse f)
  | .call callee args => do return .call callee (← traverseAll f args)
  | e => some e

/-- The expressions with other constants. -/
def traverseAll (f : Value → Option Value) : List Expr → Option (List Expr)
  | [] => some []
  | e :: rest => do return (← e.traverse f) :: (← traverseAll f rest)

end

theorem traverseAll_eq_mapM (args : List Expr) : traverseAll f args = args.mapM (traverse f) := by
  induction args with
  | nil => rfl
  | cons e rest ih => rw [traverseAll, ih, List.mapM_cons]

theorem literalsOf_eq_flatMap (args : List Expr) : literalsOf args = args.flatMap literals := by
  induction args with
  | nil => rfl
  | cons e rest ih => rw [literalsOf, ih, List.flatMap_cons]

theorem isSome_traverse (e : Expr) : (e.traverse f).isSome ↔ ∀ v ∈ e.literals, (f v).isSome := by
  induction e with
  | value v => simp [traverse, literals]
  | unary op e ih =>
    rw [literals, ← ih, traverse]
    cases e.traverse f <;> simp
  | binary op l r ihl ihr =>
    rw [literals, List.forall_mem_append, ← ihl, ← ihr, traverse]
    cases l.traverse f <;> cases r.traverse f <;> simp
  | call callee args ih =>
    have hargs : (args.mapM (traverse f)).isSome ↔ ∀ e ∈ args, ∀ v ∈ e.literals, (f v).isSome :=
      isSome_mapM.trans (forall₂_congr ih)
    rw [literals, literalsOf_eq_flatMap, List.forall_mem_flatMap, ← hargs, traverse,
      traverseAll_eq_mapM]
    cases args.mapM (traverse f) <;> simp
  | _ => simp [traverse, literals]

theorem isSome_mapM_traverse (args : List Expr) :
    (args.mapM (traverse f)).isSome ↔ ∀ v ∈ literalsOf args, (f v).isSome := by
  rw [literalsOf_eq_flatMap, List.forall_mem_flatMap]
  exact isSome_mapM.trans (forall₂_congr fun e _ => e.isSome_traverse)

theorem traverse_some (e : Expr) : e.traverse some = some e := by
  induction e with
  | unary op e ih =>
    rw [traverse, ih]
    rfl
  | binary op l r ihl ihr =>
    rw [traverse, ihl, ihr]
    rfl
  | call callee args ih =>
    rw [traverse, traverseAll_eq_mapM, mapM_eq_self ih]
    rfl
  | _ => rfl

end Expr

namespace Operation

/-- The constants that an operation holds. -/
def literals : Operation → List Value
  | .assign _ value => value.literals
  | .branch condition _ => condition.literals
  | .invoke _ args => Expr.literalsOf args
  | .ret (some value) => value.literals
  | _ => []

/-- The operation with other constants. -/
def traverse (f : Value → Option Value) : Operation → Option Operation
  | .assign target value => do return .assign target (← value.traverse f)
  | .branch condition target => do return .branch (← condition.traverse f) target
  | .invoke callee args => do return .invoke callee (← args.mapM (Expr.traverse f))
  | .ret value => (value.mapM (Expr.traverse f)).map .ret
  | op => some op

theorem isSome_traverse (op : Operation) :
    (op.traverse f).isSome ↔ ∀ v ∈ op.literals, (f v).isSome := by
  cases op with
  | assign target value =>
    rw [literals, ← value.isSome_traverse, traverse]
    cases value.traverse f <;> simp
  | branch condition target =>
    rw [literals, ← condition.isSome_traverse, traverse]
    cases condition.traverse f <;> simp
  | invoke callee args =>
    rw [literals, ← Expr.isSome_mapM_traverse, traverse]
    cases args.mapM (Expr.traverse f) <;> simp
  | ret value =>
    cases value with
    | none => simp [traverse, literals]
    | some value =>
      rw [literals, ← value.isSome_traverse, traverse]
      cases hvalue : value.traverse f <;> simp [hvalue]
  | _ => simp [traverse, literals]

theorem traverse_some (op : Operation) : op.traverse some = some op := by
  cases op with
  | assign target value =>
    rw [traverse, value.traverse_some]
    rfl
  | branch condition target =>
    rw [traverse, condition.traverse_some]
    rfl
  | invoke callee args =>
    rw [traverse, mapM_eq_self fun e _ => e.traverse_some]
    rfl
  | ret value =>
    cases value with
    | none => rfl
    | some value =>
      rw [traverse, Option.mapM_some, value.traverse_some]
      rfl
  | _ => rfl

end Operation

/-- The instruction with other constants. -/
def Instr.traverse (f : Value → Option Value) (i : Instr) : Option Instr := do
  return { i with op := ← i.op.traverse f }

theorem Instr.isSome_traverse (i : Instr) :
    (i.traverse f).isSome ↔ ∀ v ∈ i.op.literals, (f v).isSome := by
  rw [← i.op.isSome_traverse, traverse]
  cases i.op.traverse f <;> simp

theorem Instr.traverse_some (i : Instr) : i.traverse some = some i := by
  rw [traverse, i.op.traverse_some]
  rfl

/-- The constants that a body holds. -/
def Body.literals (b : Body) : List Value := b.instrs.flatMap (·.op.literals)

/-- The body with other constants. -/
def Body.traverse (f : Value → Option Value) (b : Body) : Option Body := do
  return { b with instrs := ← b.instrs.mapM (Instr.traverse f) }

theorem Body.isSome_traverse (b : Body) :
    (b.traverse f).isSome ↔ ∀ v ∈ b.literals, (f v).isSome := by
  have hinstrs : (b.instrs.mapM (Instr.traverse f)).isSome ↔
      ∀ i ∈ b.instrs, ∀ v ∈ i.op.literals, (f v).isSome :=
    isSome_mapM.trans (forall₂_congr fun i _ => i.isSome_traverse)
  rw [literals, List.forall_mem_flatMap, ← hinstrs, traverse]
  cases b.instrs.mapM (Instr.traverse f) <;> simp

theorem Body.traverse_some (b : Body) : b.traverse some = some b := by
  rw [traverse, mapM_eq_self fun i _ => i.traverse_some]
  rfl

/-- The method with other constants. -/
def Method.traverse (f : Value → Option Value) (m : Method) : Option Method := do
  return { m with body := ← m.body.traverse f }

theorem Method.isSome_traverse (m : Method) :
    (m.traverse f).isSome ↔ ∀ v ∈ m.body.literals, (f v).isSome := by
  rw [← m.body.isSome_traverse, traverse]
  cases m.body.traverse f <;> simp

theorem Method.traverse_some (m : Method) : m.traverse some = some m := by
  rw [traverse, m.body.traverse_some]
  rfl

/-- The field with another initial value. -/
def FieldDecl.traverse (f : Value → Option Value) (d : FieldDecl) : Option FieldDecl := do
  return { d with initial := ← d.initial.mapM f }

theorem FieldDecl.isSome_traverse (d : FieldDecl) :
    (d.traverse f).isSome ↔ ∀ v ∈ d.initial.toList, (f v).isSome := by
  cases hd : d.initial with
  | none => simp [traverse, hd]
  | some v => cases hv : f v <;> simp [traverse, hd, hv]

theorem FieldDecl.traverse_some (d : FieldDecl) : d.traverse some = some d := by
  cases d with
  | mk name ty initial => cases initial <;> rfl

namespace Class

/-- The constants that a class holds: the initial values of its fields, and those in its methods. -/
def literals (c : Class) : List Value :=
  c.fields.flatMap (·.initial.toList) ++ c.methods.flatMap (·.body.literals)

/-- The class with other constants. -/
def traverse (f : Value → Option Value) (c : Class) : Option Class := do
  return { c with
    fields := ← c.fields.mapM (FieldDecl.traverse f)
    methods := ← c.methods.mapM (Method.traverse f) }

theorem isSome_traverse (c : Class) :
    (c.traverse f).isSome ↔ ∀ v ∈ c.literals, (f v).isSome := by
  have hfields : (c.fields.mapM (FieldDecl.traverse f)).isSome ↔
      ∀ d ∈ c.fields, ∀ v ∈ d.initial.toList, (f v).isSome :=
    isSome_mapM.trans (forall₂_congr fun d _ => d.isSome_traverse)
  have hmethods : (c.methods.mapM (Method.traverse f)).isSome ↔
      ∀ m ∈ c.methods, ∀ v ∈ m.body.literals, (f v).isSome :=
    isSome_mapM.trans (forall₂_congr fun m _ => m.isSome_traverse)
  rw [literals, List.forall_mem_append, List.forall_mem_flatMap, List.forall_mem_flatMap,
    ← hfields, ← hmethods, traverse]
  cases c.fields.mapM (FieldDecl.traverse f) <;>
    cases c.methods.mapM (Method.traverse f) <;> simp

theorem traverse_some (c : Class) : c.traverse some = some c := by
  rw [traverse, mapM_eq_self fun d _ => d.traverse_some, mapM_eq_self fun m _ => m.traverse_some]
  rfl

end Class

end TraceWeave
