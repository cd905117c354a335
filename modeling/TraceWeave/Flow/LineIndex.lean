import TraceWeave.Body.Basic
/-!
# Instructions by source line
-/

namespace TraceWeave

/-- The instructions that carry a source line, in program order. -/
structure LineIndex where
  /-- Lines and labels. -/
  entries : List (UInt32 × Label) := []

namespace LineIndex

instance : EmptyCollection LineIndex := ⟨{}⟩

/-- The index of a body. -/
def ofBody (b : Body) : LineIndex :=
  ⟨b.instrs.filterMap fun i => i.sourceLine?.map fun n => (n, i.label)⟩

/-- Adds an instruction after the others. -/
def insert (index : LineIndex) (line : UInt32) (label : Label) : LineIndex :=
  ⟨index.entries ++ [(line, label)]⟩

/-- The instructions with a line. -/
def labelsAt (index : LineIndex) (line : UInt32) : List Label :=
  (index.entries.filter fun e => e.1 == line).map (·.2)

/-- The first instruction with a line. -/
def firstAt? (index : LineIndex) (line : UInt32) : Option Label :=
  (index.entries.find? fun e => e.1 == line).map (·.2)

/-- Whether some instruction has a line. -/
def contains (index : LineIndex) (line : UInt32) : Bool := index.entries.any fun e => e.1 == line

/-- The lines of the index, ascending and without repetition. -/
def lines (index : LineIndex) : List UInt32 :=
  ascending (index.entries.map (·.1))

end LineIndex

end TraceWeave
