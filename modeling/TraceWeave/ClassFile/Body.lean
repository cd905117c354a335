import TraceWeave.Body.Basic
import TraceWeave.ClassFile.Probe
/-!
# Bodies in class files
-/

namespace TraceWeave

open Json

/-- The document of a label. -/
def Label.toJson (l : Label) : Json := .ofNat l.number.toNat

/-- Reads a label. -/
def Label.ofJson? (j : Json) : Option Label := j.uint32?.map Label.mk

namespace Place

/-- The document of an assignment's target. -/
def toJson : Place → Json
  | .var x => variant "local" x.toJson
  | .field f => variant "static_field" f.toJson

/-- Reads the target of an assignment. -/
def ofJson? : Nat → Json → Option Place
  | levels + 1, .object [(some kind, content)] =>
    match kind with
    | "local" => (Local.ofJson? levels content).map .var
    | "static_field" => (FieldRef.ofJson? levels content).map .field
    | _ => none
  | _, _ => none

end Place

namespace Operation

/-- The document of an operation. -/
def toJson (floats : FloatForm) : Operation → Json
  | .assign target value =>
    variant "assign" (record [("target", target.toJson), ("value", value.toJson floats)])
  | .branch condition target =>
    variant "branch" (record [("condition", condition.toJson floats), ("target", target.toJson)])
  | .goto target => variant "goto" (record [("target", target.toJson)])
  | .invoke callee args =>
    variant "invoke"
      (record [("target", callee.toJson), ("args", .array (Expr.toJsonAll floats args))])
  | .ret none => variant "return" .null
  | .ret (some value) => variant "return" (value.toJson floats)
  | .probe p => variant "probe" p.toJson
  | .nop => .string "nop"

/-- Reads the record of an operation of a kind. -/
def ofRecord? (levels : Nat) (kind : String) (content : Json) : Option Operation := do
  match kind with
  | "assign" =>
    match ← fields? ["target", "value"] content with
    | [some target, some value] =>
      return .assign (← Place.ofJson? levels target) (← Expr.ofJson? levels value)
    | _ => none
  | "branch" =>
    match ← fields? ["condition", "target"] content with
    | [some condition, some target] =>
      return .branch (← Expr.ofJson? levels condition) (← Label.ofJson? target)
    | _ => none
  | "goto" =>
    match ← fields? ["target"] content with
    | [some target] => return .goto (← Label.ofJson? target)
    | _ => none
  | "invoke" =>
    match ← fields? ["target", "args"] content with
    | [some callee, some args] =>
      return .invoke (← Callee.ofJson? levels callee) (← list? Expr.ofJson? levels args)
    | _ => none
  | _ => none

/-- Reads the content of an operation of a kind. -/
def ofContent? (levels : Nat) (kind : String) (content : Json) : Option Operation :=
  match kind, levels with
  | "return", levels => (nullable? (Expr.ofJson? levels) content).map .ret
  | "probe", levels => (Probe.ofJson? levels content).map .probe
  | "nop", _ => if isUnit (some content) then some .nop else none
  | kind, levels + 1 => ofRecord? levels kind content
  | _, 0 => none

/-- Reads an operation. -/
def ofJson? : Nat → Json → Option Operation
  | _, .string "nop" => some .nop
  | levels + 1, .object [(some kind, content)] => ofContent? levels kind content
  | _, _ => none

end Operation

namespace Instr

/-- The document of an instruction. -/
def toJson (floats : FloatForm) (i : Instr) : Json :=
  record [("id", i.label.toJson), ("line", .ofInt i.line.toInt), ("kind", i.op.toJson floats)]

/-- Reads an instruction; without a line it has none. -/
def ofJson? : Nat → Json → Option Instr
  | 0, _ => none
  | levels + 1, j => do
    match ← fields? ["id", "line", "kind"] j with
    | [some label, line, some op] =>
      return { label := ← Label.ofJson? label, line := ← fieldOr 0 int32? line,
               op := ← Operation.ofJson? levels op }
    | _ => none

end Instr

namespace Body

/-- The document of a body. -/
def toJson (floats : FloatForm) (b : Body) : Json :=
  record [("locals", .array (b.locals.map Local.toJson)),
    ("instructions", .array (b.instrs.map (Instr.toJson floats)))]

/-- Reads a body; variables need not be declared. -/
def ofJson? : Nat → Json → Option Body
  | 0, _ => none
  | levels + 1, j => do
    match ← fields? ["locals", "instructions"] j with
    | [locals, some instrs] =>
      return { locals := ← fieldOr [] (list? Local.ofJson? levels) locals,
               instrs := ← list? Instr.ofJson? levels instrs }
    | _ => none

end Body

end TraceWeave
