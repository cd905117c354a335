import TraceWeave.Ascending
import TraceWeave.Probe
/-!
# Method bodies

A body is a sequence of labelled instructions with the variables that they use.  Jumps name labels,
never positions, so instructions can be inserted without renumbering: an insertion before an
instruction takes over the jumps to it, and an insertion at the entry does not.
-/

namespace TraceWeave

/-- The label of an instruction. -/
structure Label where
  /-- The number of the label. -/
  number : UInt32
deriving DecidableEq, Repr

/-- A label as it is written in a listing. -/
def Label.text (l : Label) : String := "#" ++ toString l.number.toNat

instance : ToString Label := ⟨Label.text⟩

/-- The target of an assignment. -/
inductive Place where
  /-- A local variable. -/
  | var (x : Local)
  /-- A static field. -/
  | field (f : FieldRef)
deriving DecidableEq, Repr

/-- What an instruction does. -/
inductive Operation where
  /-- Assigns a value. -/
  | assign (target : Place) (value : Expr)
  /-- Jumps if the condition holds. -/
  | branch (condition : Expr) (target : Label)
  /-- Jumps. -/
  | goto (target : Label)
  /-- Calls a method for its effects. -/
  | invoke (callee : Callee) (args : List Expr)
  /-- Returns from the method, with a value or without. -/
  | ret (value : Option Expr)
  /-- Offers an event to the recorder. -/
  | probe (p : Probe)
  /-- Does nothing. -/
  | nop

namespace Operation

/-- The label that an operation may jump to. -/
def target? : Operation → Option Label
  | .branch _ target => some target
  | .goto target => some target
  | _ => none

/-- A conditional jump. -/
def isBranch : Operation → Bool
  | .branch _ _ => true
  | _ => false

/-- An operation after which control never goes on to the next instruction. -/
def isTerminator : Operation → Bool
  | .ret _ | .goto _ => true
  | _ => false

/-- A return. -/
def isReturn : Operation → Bool
  | .ret _ => true
  | _ => false

/-- A probe. -/
def isProbe : Operation → Bool
  | .probe _ => true
  | _ => false

/-- The operation with its jumps to `old` turned to `new`. -/
def redirect (old new : Label) : Operation → Operation
  | .branch condition target => .branch condition (if target = old then new else target)
  | .goto target => .goto (if target = old then new else target)
  | op => op

end Operation

/-- An instruction. -/
structure Instr where
  /-- The label, which is unique in a body. -/
  label : Label
  /-- The source line; zero and below mean that there is none. -/
  line : Int32 := 0
  /-- What the instruction does. -/
  op : Operation

namespace Instr

/-- The source line of an instruction, if it has one. -/
def sourceLine? (i : Instr) : Option UInt32 :=
  if 0 < i.line then some i.line.toUInt32 else none

/-- The instruction with its jumps to `old` turned to `new`. -/
def redirect (old new : Label) (i : Instr) : Instr := { i with op := i.op.redirect old new }

/-- The instruction with another condition, if it is a branch. -/
def setCondition (i : Instr) (condition : Expr) : Instr :=
  match i.op with
  | .branch _ target => { i with op := .branch condition target }
  | _ => i

end Instr

/-- What can be wrong with a body. -/
inductive Defect where
  /-- Two instructions have the same label. -/
  | duplicateLabel (label : Label)
  /-- A jump names a label that no instruction has. -/
  | danglingJump (origin target : Label)
  /-- The instruction to insert before does not exist. -/
  | missingAnchor (label : Label)
  /-- A branch that is to get another condition does not exist. -/
  | missingBranch (label : Label)
deriving DecidableEq, Repr

/-- What a defect is reported as. -/
def Defect.message : Defect → String
  | .duplicateLabel label => "duplicate instruction id " ++ label.text
  | .danglingJump origin target =>
    origin.text ++ " jumps to missing instruction " ++ target.text
  | .missingAnchor label => "anchor " ++ label.text ++ " not in body"
  | .missingBranch label => "branch " ++ label.text ++ " vanished"

/-- The instructions of a method and its declared variables. -/
structure Body where
  /-- The declared variables, temporaries included. -/
  locals : List Local := []
  /-- The instructions, in program order. -/
  instrs : List Instr := []

namespace Body

instance : EmptyCollection Body := ⟨{}⟩

/-- The number of instructions. -/
def size (b : Body) : Nat := b.instrs.length

/-- The labels of the instructions, in program order. -/
def labels (b : Body) : List Label := b.instrs.map (·.label)

/-- The position of the first instruction with a label. -/
def position? (b : Body) (label : Label) : Option Nat :=
  b.instrs.findIdx? fun i => i.label == label

/-- The first instruction with a label. -/
def get? (b : Body) (label : Label) : Option Instr :=
  b.instrs.find? fun i => i.label == label

/-- The condition of the first instruction with a label, if it is a branch. -/
def condition? (b : Body) (label : Label) : Option Expr :=
  (b.get? label).bind fun i =>
    match i.op with
    | .branch condition _ => some condition
    | _ => none

/-! ### Labels for new instructions -/

/-- The least number that is not in a list. -/
def leastUnused (used : List Nat) : Nat :=
  ((List.range (used.length + 1)).find? fun n => !used.contains n).getD 0

/-- The label of the next instruction to be inserted: one more than the greatest in use, or the
least unused one when the greatest is taken. -/
def nextLabel (b : Body) : Label :=
  let used := b.instrs.map (·.label.number.toNat)
  match used.max? with
  | none => ⟨0⟩
  | some n => if n + 1 < UInt32.size then ⟨.ofNat (n + 1)⟩ else ⟨.ofNat (leastUnused used)⟩

/-! ### Insertions -/

/-- Appends an instruction with a source line. -/
def push (b : Body) (line : Int32) (op : Operation) : Body :=
  { b with instrs := b.instrs ++ [{ label := b.nextLabel, line, op }] }

/-- Inserts an instruction at the entry.  Jumps stay as they are, so it runs once per call. -/
def insertEntry (b : Body) (op : Operation) : Body :=
  { b with instrs := { label := b.nextLabel, op } :: b.instrs }

/-- Inserts an instruction before the one with label `anchor`, if there is one.  Jumps to the anchor
go to the new instruction, so that every way to the anchor leads through it. -/
def insertBefore? (b : Body) (anchor : Label) (op : Operation) : Option Body :=
  if anchor ∈ b.labels then
    let new := b.nextLabel
    let instrs := b.instrs.map (Instr.redirect anchor new)
    some { b with
      instrs := instrs.takeWhile (·.label ≠ anchor) ++
        { label := new, op } :: instrs.dropWhile (·.label ≠ anchor) }
  else none

/-- Gives the first instruction with a label a new condition, if it is a branch. -/
def setCondition (b : Body) (label : Label) (condition : Expr) : Body :=
  match b.instrs.dropWhile (·.label ≠ label) with
  | [] => b
  | i :: rest =>
    { b with
      instrs := b.instrs.takeWhile (·.label ≠ label) ++ i.setCondition condition :: rest }

/-! ### Variables -/

/-- Declares a variable, unless its name is declared already. -/
def declare (b : Body) (x : Local) : Body :=
  if b.locals.any fun y => y.name == x.name then b else { b with locals := b.locals ++ [x] }

/-- What the names of temporaries begin with. -/
def temporaryStem : String := "__autogen_"

/-- The name of a temporary. -/
def temporaryName (n : Nat) : String := temporaryStem ++ toString n

/-- Whether a variable is named like a temporary. -/
def isTemporary (x : Local) : Bool := temporaryStem.toList.isPrefixOf x.name.toList

/-- The number of the next temporary: the first, from the number of temporaries on, whose name is
not declared. -/
def nextTemporary (b : Body) : Nat :=
  let start := (b.locals.filter isTemporary).length
  let names := b.locals.map (·.name)
  let offsets := List.range (b.locals.length + 1)
  start + (offsets.find? fun n => !names.contains (temporaryName (start + n))).getD 0

/-- A fresh temporary of a type. -/
def freshLocal (b : Body) (ty : Ty) : Local := { name := temporaryName b.nextTemporary, ty }

/-- The body with a fresh temporary of a type. -/
def addTemporary (b : Body) (ty : Ty) : Body :=
  { b with locals := b.locals ++ [b.freshLocal ty] }

/-! ### Lines and probes -/

/-- The source lines of the instructions, ascending and without repetition. -/
def lines (b : Body) : List UInt32 :=
  ascending (b.instrs.filterMap Instr.sourceLine?)

/-- The number of probes. -/
def probeCount (b : Body) : Nat := b.instrs.countP fun i => i.op.isProbe

/-! ### Consistency -/

/-- The first label that stands a second time. -/
def firstRepeated? (seen : List Label) : List Label → Option Label
  | [] => none
  | l :: rest => if l ∈ seen then some l else firstRepeated? (l :: seen) rest

/-- The first jump to a label that no instruction has. -/
def firstDangling? (b : Body) : Option (Label × Label) :=
  b.instrs.findSome? fun i =>
    match i.op.target? with
    | some target => if target ∈ b.labels then none else some (i.label, target)
    | none => none

/-- The first defect of a body: labels are unique, and every jump lands inside the body. -/
def defect? (b : Body) : Option Defect :=
  match firstRepeated? [] b.labels, b.firstDangling? with
  | some label, _ => some (.duplicateLabel label)
  | none, some (origin, target) => some (.danglingJump origin target)
  | none, none => none

end Body

end TraceWeave
