import TraceWeave.Trace.Summary
import TraceWeave.Weave.Basic
/-!
# Weaving reports

A report lists what happened to each method; every number in it is read off that list.  Reports of
several runs are joined by joining their lists.
-/

namespace TraceWeave

/-- A method that keeps its body because it could not be woven. -/
structure MethodFailure where
  /-- The signature of the method. -/
  signature : String
  /-- The weaver that failed. -/
  weaver : String
  /-- What the failure is reported as. -/
  message : String
deriving DecidableEq, Repr

/-- What happened to a method. -/
inductive ReportEntry where
  /-- All weavers went through; these are their outcomes. -/
  | processed (owner : String) (outcomes : List Outcome)
  /-- A weaver failed, and the method keeps its body. -/
  | rolledBack (failure : MethodFailure)
deriving DecidableEq, Repr

namespace ReportEntry

/-- The probes that an outcome counts. -/
def outcomeProbes : Outcome → Nat
  | .woven probes => probes
  | _ => 0

/-- The reason of an outcome that is a skip. -/
def skipReason? : Outcome → Option SkipReason
  | .skipped reason => some reason
  | _ => none

/-- The probes woven into a method. -/
def probes : ReportEntry → Nat
  | .processed _ outcomes => (outcomes.map outcomeProbes).foldr (· + ·) 0
  | .rolledBack _ => 0

/-- The reasons for which every weaver left a method alone; none if one did not. -/
def skipReasons : ReportEntry → List SkipReason
  | .processed _ outcomes =>
    let reasons := outcomes.filterMap skipReason?
    if reasons.length = outcomes.length then reasons else []
  | .rolledBack _ => []

/-- Whether every weaver left the method alone. -/
def isSkipped (e : ReportEntry) : Bool := !e.skipReasons.isEmpty

/-- The class and the number of probes of a method that got some. -/
def classProbes? : ReportEntry → Option (String × Nat)
  | .processed owner outcomes =>
    let n := (ReportEntry.processed owner outcomes).probes
    if n = 0 then none else some (owner, n)
  | .rolledBack _ => none

/-- The failure of a method that was rolled back. -/
def failure? : ReportEntry → Option MethodFailure
  | .processed .. => none
  | .rolledBack failure => some failure

end ReportEntry

/-- What happened to the methods of a program, in order. -/
structure Report where
  /-- The entries, one per method. -/
  entries : List ReportEntry := []
deriving DecidableEq, Repr

namespace Report

instance : EmptyCollection Report := ⟨{}⟩

instance : Append Report := ⟨fun r s => ⟨r.entries ++ s.entries⟩⟩

/-- The report of one method. -/
def ofEntry (e : ReportEntry) : Report := ⟨[e]⟩

/-- The number of methods. -/
def methods (r : Report) : Nat := r.entries.length

/-- The number of methods that got probes. -/
def instrumented (r : Report) : Nat := r.entries.countP fun e => e.probes != 0

/-- The number of methods that every weaver left alone. -/
def skipped (r : Report) : Nat := r.entries.countP fun e => e.isSkipped

/-- The number of probes. -/
def probes (r : Report) : Nat := (r.entries.map (·.probes)).foldr (· + ·) 0

/-- The number of probes by class, for the classes that got some, by ascending name. -/
def probesByClass (r : Report) : List (String × Nat) :=
  sumByKey (r.entries.filterMap (·.classProbes?))

/-- How often each reason made a weaver leave a skipped method alone, by ascending name. -/
def skipReasons (r : Report) : List (String × Nat) :=
  sumByKey ((r.entries.flatMap (·.skipReasons)).map fun reason => (reason.label, 1))

/-- The methods that were rolled back, in order. -/
def failures (r : Report) : List MethodFailure := r.entries.filterMap (·.failure?)

/-- Whether no method was rolled back. -/
def isClean (r : Report) : Bool := r.failures.isEmpty

end Report

end TraceWeave
