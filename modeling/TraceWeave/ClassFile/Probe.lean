import TraceWeave.ClassFile.Expr
import TraceWeave.Probe
/-!
# Probes in class files

A probe is a variant named for its kind, with a record of what it reports.
-/

namespace TraceWeave

open Json

/-- The source with a name. -/
def Source.ofName? (name : String) : Option Source :=
  [Source.constant, Source.variable].find? fun s => s.name == name

/-- Reads a source. -/
def Source.ofJson? (levels : Nat) (j : Json) : Option Source :=
  (operatorName? levels j).bind Source.ofName?

namespace Probe

/-- The document of an unsigned number. -/
def numberJson (n : UInt32) : Json := .ofNat n.toNat

/-- The document of a probe. -/
def toJson : Probe → Json
  | .lineReached file line =>
    variant "line_exercised" (record [("file", .string file), ("line", numberJson line)])
  | .branchReached file line index =>
    variant "subcondition_checked"
      (record [("file", .string file), ("line", numberJson line), ("index", numberJson index)])
  | .condition file line index left op right =>
    variant "condition"
      (record [("file", .string file), ("line", numberJson line), ("index", numberJson index),
        ("left", .string left), ("op", .string op.name), ("right", .string right)])
  | .capture file line x source =>
    variant "var"
      (record [("file", .string file), ("line", numberJson line), ("var", x.toJson),
        ("source", .string source.name)])
  | .fieldRead file line field =>
    variant "field_accessed"
      (record [("file", .string file), ("line", numberJson line), ("field", .string field)])
  | .testStart test => variant "test_start" (record [("test", .string test)])
  | .testEnd test => variant "test_end" (record [("test", .string test)])

/-- Reads what a probe of a kind reports. -/
def ofContent? (levels : Nat) (kind : String) (content : Json) : Option Probe := do
  match kind with
  | "line_exercised" =>
    match ← fields? ["file", "line"] content with
    | [some file, some line] => return .lineReached (← file.text?) (← line.uint32?)
    | _ => none
  | "subcondition_checked" =>
    match ← fields? ["file", "line", "index"] content with
    | [some file, some line, some index] =>
      return .branchReached (← file.text?) (← line.uint32?) (← index.uint32?)
    | _ => none
  | "condition" =>
    match ← fields? ["file", "line", "index", "left", "op", "right"] content with
    | [some file, some line, some index, some left, some op, some right] =>
      return .condition (← file.text?) (← line.uint32?) (← index.uint32?) (← left.text?)
        (← BinaryOp.ofJson? levels op) (← right.text?)
    | _ => none
  | "var" =>
    match ← fields? ["file", "line", "var", "source"] content with
    | [some file, some line, some x, some source] =>
      return .capture (← file.text?) (← line.uint32?) (← Local.ofJson? levels x)
        (← Source.ofJson? levels source)
    | _ => none
  | "field_accessed" =>
    match ← fields? ["file", "line", "field"] content with
    | [some file, some line, some field] =>
      return .fieldRead (← file.text?) (← line.uint32?) (← field.text?)
    | _ => none
  | "test_start" =>
    match ← fields? ["test"] content with
    | [some test] => return .testStart (← test.text?)
    | _ => none
  | "test_end" =>
    match ← fields? ["test"] content with
    | [some test] => return .testEnd (← test.text?)
    | _ => none
  | _ => none

/-- Reads a probe. -/
def ofJson? : Nat → Json → Option Probe
  | levels + 2, .object [(some kind, content)] => ofContent? levels kind content
  | _, _ => none

end Probe

end TraceWeave
