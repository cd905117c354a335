import TraceWeave.Flow.Anchor
import TraceWeave.Selection.Lines
import TraceWeave.Settings
import TraceWeave.Weave.Condition
/-!
# Probes in product code

Product code gets a probe for each requested line that is near one of its own lines, before the
anchor of that line, and has the conditions of the branches on requested lines decomposed.
-/

namespace TraceWeave

/-- Why product code of a method is left alone, if it is. -/
def productSkip? (settings : Settings) (target : MethodTarget) : Option SkipReason :=
  if settings.isInfrastructure target.owner then some .infrastructure
  else if settings.isTestClass target.owner then some .testClass
  else if target.method == Method.initializerName then some .staticInitializer
  else none

namespace Product

/-- The distance of two lines. -/
def distance (m n : UInt32) : UInt32 := if m < n then n - m else m - n

/-- The requested lines that are near a line of the body, ascending. -/
def matchedLines (requested : LineSet) (tolerance : UInt32) (b : Body) : List UInt32 :=
  if requested.isEmpty then [] else
  let present := b.lines
  requested.toList.filter fun n => present.any fun m => distance m n ≤ tolerance

/-- Inserts the probe of a line before its anchor, unless the line is probed already. -/
def probeLine (file : String) (line : UInt32) (anchor : Label) : WeaveM Unit := do
  if ← reserveLine (LineLedger.key file line) then
    onBody (insertBefore anchor (.probe (.lineReached file line)))

/-- Inserts the probes of lines with their anchors, in order; a line without one gets none. -/
def probeLines (file : String) : List (UInt32 × Option Label) → WeaveM Unit
  | [] => return
  | (_, none) :: rest => probeLines file rest
  | (line, some anchor) :: rest => do
    probeLine file line anchor
    probeLines file rest

/-- The anchors of lines in a body. -/
def anchors (b : Body) (lines : List UInt32) : List (UInt32 × Option Label) :=
  let finder := AnchorFinder.ofBody b
  lines.map fun n => (n, finder.find? n)

/-- The branches of a body on some lines, in program order. -/
def branchesOn (lines : List UInt32) (b : Body) : List (Label × UInt32) :=
  b.instrs.filterMap fun i =>
    if i.op.isBranch then
      match i.sourceLine? with
      | some n => if lines.contains n then some (i.label, n) else none
      | none => none
    else none

/-- Numbers branches: a branch on the line of the one before it counts on, any other one starts at
one.  `previous` is the line and the number of the branch before. -/
def numbered (previous : Option (UInt32 × UInt32)) :
    List (Label × UInt32) → List (Label × UInt32 × UInt32)
  | [] => []
  | (label, line) :: rest =>
    let index := match previous with
      | some (n, index) => if n = line then index + 1 else 1
      | none => 1
    (label, line, index) :: numbered (some (line, index)) rest

/-- Decomposes the condition of a branch and reports the branch. -/
def probeBranch (target : MethodTarget) (label : Label) (site : BranchSite) : EditM Unit := do
  match (← get).condition? label with
  | some condition =>
    let rest ← Decomposition.decompose ⟨label, site, target.signature⟩ condition
    modify fun b => b.setCondition label rest
    insertBefore label (.probe (.branchReached site.file site.line site.index))
  | none => throw (.defective (.missingBranch label))

/-- Decomposes the conditions of numbered branches, in order. -/
def probeBranches (target : MethodTarget) : List (Label × UInt32 × UInt32) → EditM Unit
  | [] => return
  | (label, line, index) :: rest => do
    probeBranch target label ⟨target.file, line, index⟩
    probeBranches target rest

/-- Inserts the probes of lines and branches. -/
def probe (target : MethodTarget) (lines : List UInt32) : WeaveM Unit := do
  probeLines target.file (anchors (← get).body lines)
  onBody do
    let branches := branchesOn lines (← get)
    probeBranches target (numbered none branches)

/-- Weaves line and condition probes into product code. -/
def weave (settings : Settings) (selection : LineSelection) (target : MethodTarget) :
    WeaveM Outcome := do
  match productSkip? settings target with
  | some reason => return .skipped reason
  | none =>
    let before := (← get).body
    let lines := matchedLines (selection.linesFor target.file) settings.lineTolerance before
    if lines.isEmpty then return .unchanged
    probe target lines
    return .ofCounts before.probeCount (← get).body.probeCount

end Product

end TraceWeave
