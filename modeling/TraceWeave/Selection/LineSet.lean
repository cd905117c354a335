/-!
# Sets of line numbers

A set of line numbers is kept as inclusive runs, ascending and with gaps between them, so equal sets
have equal runs and long ranges cost nothing.
-/

namespace TraceWeave

/-- The line numbers from `first` to `last`, both included. -/
structure LineRun where
  /-- The least line. -/
  first : UInt32
  /-- The greatest line. -/
  last : UInt32
deriving DecidableEq, Repr

namespace LineRun

instance : Membership UInt32 LineRun where
  mem r n := r.first ≤ n ∧ n ≤ r.last

instance (n : UInt32) (r : LineRun) : Decidable (n ∈ r) :=
  inferInstanceAs (Decidable (r.first ≤ n ∧ n ≤ r.last))

/-- The run of a single line. -/
def single (n : UInt32) : LineRun := ⟨n, n⟩

/-- The lines of a run, ascending. -/
def toList (r : LineRun) : List UInt32 :=
  (List.range' r.first.toNat (r.last.toNat + 1 - r.first.toNat)).map UInt32.ofNat

end LineRun

/-- A set of line numbers. -/
structure LineSet where
  /-- The runs of the set. -/
  runs : List LineRun := []
deriving DecidableEq, Repr

namespace LineSet

instance : EmptyCollection LineSet := ⟨{}⟩

instance : Membership UInt32 LineSet where
  mem s n := ∃ r ∈ s.runs, n ∈ r

instance (n : UInt32) (s : LineSet) : Decidable (n ∈ s) :=
  inferInstanceAs (Decidable (∃ r ∈ s.runs, n ∈ r))

/-- Whether a set has no lines. -/
def isEmpty (s : LineSet) : Bool := s.runs.isEmpty

/-- Adds a run to ascending runs with gaps, joining all runs that it touches. -/
def insertRun (r : LineRun) : List LineRun → List LineRun
  | [] => [r]
  | s :: rest =>
    if r.last.toNat + 1 < s.first.toNat then r :: s :: rest
    else if s.last.toNat + 1 < r.first.toNat then s :: insertRun r rest
    else insertRun ⟨min r.first s.first, max r.last s.last⟩ rest

/-- The set with a further run; a run that ends before it begins adds nothing. -/
def insert (r : LineRun) (s : LineSet) : LineSet :=
  if r.first ≤ r.last then ⟨insertRun r s.runs⟩ else s

/-- The set of all lines in some runs. -/
def ofRuns (runs : List LineRun) : LineSet := runs.foldr insert ∅

/-- The lines of either set. -/
def union (s t : LineSet) : LineSet := s.runs.foldr insert t

/-- The lines of a set, ascending. -/
def toList (s : LineSet) : List UInt32 := s.runs.flatMap LineRun.toList

end LineSet

end TraceWeave
