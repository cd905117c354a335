import TraceWeave.Expr.Basic
import TraceWeave.Text.Blank
/-!
# Field selections

A field selection names the static fields whose reads are monitored, one per line: a class, a dot
and a field, split at the first dot.  The class may be given with or without its package.
-/

namespace TraceWeave

/-- The monitored fields. -/
structure FieldSelection where
  /-- Class names and field names. -/
  entries : List (String × String) := []

namespace FieldSelection

open Text

instance : EmptyCollection FieldSelection := ⟨{}⟩

/-- Reads an entry: a class and a field on either side of the first dot. -/
def entry? (line : List Char) : Option (String × String) :=
  (splitFirst? '.' (trim line)).map fun p => (String.ofList p.1, String.ofList p.2)

/-- Reads a selection, one entry per line; a line without a dot is left out. -/
def parse (text : String) : FieldSelection := ⟨(lines text.toList).filterMap entry?⟩

/-- Monitors a further field. -/
def insert (s : FieldSelection) (className field : String) : FieldSelection :=
  ⟨s.entries ++ [(className, field)]⟩

/-- Whether reads of a field are monitored. -/
def monitors (s : FieldSelection) (f : FieldRef) : Bool :=
  s.entries.contains (f.owner, f.name) || s.entries.contains (f.simpleOwner, f.name)

/-- Whether nothing is monitored. -/
def isEmpty (s : FieldSelection) : Bool := s.entries.isEmpty

end FieldSelection

end TraceWeave
