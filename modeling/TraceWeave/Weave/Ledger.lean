import TraceWeave.Body.Basic
/-!
# The line ledger

A requested line is probed once in a whole session.  The ledger holds the keys of the lines that are
probed already: those that the session has committed, and those that the method at hand has added.
The latter count only when the method is kept.
-/

namespace TraceWeave

/-- The keys of probed lines. -/
structure LineLedger where
  /-- The keys that earlier methods have committed. -/
  committed : List String
  /-- The keys that the method at hand has added. -/
  pending : List String := []

namespace LineLedger

/-- The key of a line in a file. -/
def key (file : String) (line : UInt32) : String := file ++ ":" ++ toString line.toNat

/-- Whether a key is known. -/
def contains (l : LineLedger) (key : String) : Bool :=
  l.committed.contains key || l.pending.contains key

/-- Adds a key; returns false if it was known. -/
def record (l : LineLedger) (key : String) : LineLedger × Bool :=
  if l.contains key then (l, false) else ({ l with pending := l.pending ++ [key] }, true)

end LineLedger

end TraceWeave
