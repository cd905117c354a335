import TraceWeave.Selection.Fields
import TraceWeave.Weave.Product
/-!
# Probes at field reads

An assignment whose right-hand side reads monitored fields gets a probe for each of them before it.
-/

namespace TraceWeave

namespace FieldAccess

/-- The names of the monitored fields that an expression reads, ascending and each once. -/
def monitoredReads (fields : FieldSelection) (e : Expr) : List String :=
  ascending ((e.fieldReads.filter fields.monitors).map (·.qualifiedName))

/-- A monitored field that an assignment reads. -/
structure Read where
  /-- The label of the assignment. -/
  label : Label
  /-- The line of the assignment; zero if it has none. -/
  line : UInt32
  /-- The name of the field. -/
  field : String

/-- The monitored fields that an instruction reads. -/
def readsOf (fields : FieldSelection) (i : Instr) : List Read :=
  match i.op with
  | .assign _ value =>
    (monitoredReads fields value).map fun name => ⟨i.label, i.sourceLine?.getD 0, name⟩
  | _ => []

/-- Inserts the probes of reads, in order. -/
def probeReads (file : String) : List Read → EditM Unit
  | [] => return
  | r :: rest => do
    insertBefore r.label (.probe (.fieldRead file r.line r.field))
    probeReads file rest

/-- Weaves field probes into product code. -/
def weave (settings : Settings) (fields : FieldSelection) (target : MethodTarget) :
    EditM Outcome := do
  match productSkip? settings target with
  | some reason => return .skipped reason
  | none =>
    if fields.isEmpty then return .unchanged
    let reads := (← get).instrs.flatMap (readsOf fields)
    countProbes (probeReads target.file reads)

end FieldAccess

end TraceWeave
