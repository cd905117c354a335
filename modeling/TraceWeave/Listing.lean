import TraceWeave.Program
/-!
# Listings

The readable form of instructions, methods and classes.
-/

namespace TraceWeave

namespace Listing

/-- A text with blanks before it, up to a width. -/
def padStart (width : Nat) (s : String) : String :=
  String.ofList (List.replicate (width - s.length) ' ') ++ s

/-- The written form of an assignment's target. -/
def place : Place → String
  | .var x => x.name
  | .field f => f.text

/-- The written form of an operation. -/
def operation : Operation → String
  | .assign target value => place target ++ " = " ++ value.text
  | .branch condition target => "if " ++ condition.text ++ " goto " ++ target.text
  | .goto target => "goto " ++ target.text
  | .invoke callee args => "invoke " ++ callee.text ++ "(" ++ Expr.argsText args ++ ")"
  | .ret (some value) => "return " ++ value.text
  | .ret none => "return"
  | .probe p => "probe " ++ p.text
  | .nop => "nop"

/-- The written form of an instruction: its label, its line if it has one, and its operation, in
columns. -/
def instr (i : Instr) : String :=
  let line := match i.sourceLine? with
    | some n => padStart 4 (toString n.toNat)
    | none => "    "
  padStart 5 i.label.text ++ ": " ++ line ++ "  " ++ operation i.op

/-- The written form of a method: its signature, its variables, and its instructions. -/
def method (owner : String) (m : Method) : String :=
  let locals := m.body.locals.map fun x => "        " ++ x.ty.text ++ " " ++ x.name ++ ";\n"
  let instrs := m.body.instrs.map fun i => "      " ++ instr i ++ "\n"
  "    " ++ m.signature owner ++ " \x7b\n" ++ String.join locals ++
    (if m.body.locals.isEmpty then "" else "\n") ++ String.join instrs ++ "    \x7d\n"

/-- The written form of a static field. -/
def field (f : FieldDecl) : String :=
  "    static " ++ f.ty.text ++ " " ++ f.name ++
    (match f.initial with
      | some v => " = " ++ v.literalText
      | none => "") ++ ";\n"

/-- The written form of a class. -/
def classText (c : Class) : String :=
  "// source: " ++ c.sourcePath ++ "\n" ++ "class " ++ c.name ++ " \x7b\n" ++
    String.join (c.fields.map field) ++
    String.join (c.methods.map fun m => "\n" ++ method c.name m) ++ "\x7d\n"

end Listing

end TraceWeave
