import TraceWeave.Selection.LineSet
import TraceWeave.Text.Blank
import TraceWeave.Text.Split
/-!
# Line selections

A line selection requests source lines by file.  Its text has one entry per line, a path, a colon
and a list of numbers and ranges; an entry that does not follow this form is left out as a whole.
An entry applies to every class whose source path contains the entry's path or is part of it.
-/

namespace TraceWeave

/-- The requested lines, by path, in the order in which they were requested. -/
structure LineSelection where
  /-- Paths with the lines requested for them; a path may stand several times. -/
  entries : List (String × LineSet) := []

namespace LineSelection

open Text

instance : EmptyCollection LineSelection := ⟨{}⟩

/-- The greatest difference plus one between the ends of a range. -/
def maxSpan : Nat := 100000

/-- Reads a line number. -/
def lineNumber? (l : List Char) : Option UInt32 :=
  (natural? (trim l)).bind fun n => if n < UInt32.size then some (.ofNat n) else none

/-- Reads a number, or a range of numbers that is neither reversed nor too wide. -/
def run? (item : List Char) : Option LineRun :=
  match splitFirst? '-' item with
  | none => (lineNumber? item).map .single
  | some (start, stop) => do
    let first ← lineNumber? start
    let last ← lineNumber? stop
    if last < first || maxSpan ≤ last.toNat - first.toNat then none else some ⟨first, last⟩

/-- Reads numbers and ranges with commas between them. -/
def lineSet? (numbers : List Char) : Option LineSet :=
  ((splitOn ',' numbers).mapM run?).map .ofRuns

/-- Reads an entry: a path and its lines on either side of the only colon. -/
def entry? (line : List Char) : Option (String × LineSet) :=
  match splitOn ':' line with
  | [path, numbers] => (lineSet? (trim numbers)).map fun s => (String.ofList (trim path), s)
  | _ => none

/-- Reads a selection, one entry per line. -/
def parse (text : String) : LineSelection :=
  ⟨(lines text.toList).filterMap entry?⟩

/-- Requests further lines for a path. -/
def insert (s : LineSelection) (path : String) (lines : LineSet) : LineSelection :=
  ⟨s.entries ++ [(path, lines)]⟩

/-- The lines requested for exactly this path, if there is an entry for it. -/
def get? (s : LineSelection) (path : String) : Option LineSet :=
  match s.entries.filter fun e => e.1 == path with
  | [] => none
  | matching => some (matching.foldr (fun e lines => e.2.union lines) ∅)

/-- Whether an entry for `path` applies to a class with a source path. -/
def applies (sourcePath path : String) : Bool :=
  occursIn path sourcePath || occursIn sourcePath path

/-- The lines requested for a class with a source path. -/
def linesFor (s : LineSelection) (sourcePath : String) : LineSet :=
  (s.entries.filter fun e => applies sourcePath e.1).foldr (fun e lines => e.2.union lines) ∅

/-- The number of different paths. -/
def size (s : LineSelection) : Nat := (s.entries.map (·.1)).eraseDups.length

/-- Whether nothing is requested. -/
def isEmpty (s : LineSelection) : Bool := s.entries.isEmpty

end LineSelection

end TraceWeave
