import TraceWeave.Console.Host
/-!
# What commands print

Headers, rows of results, and messages with a mark in front.
-/

namespace TraceWeave

/-- How a command prints. -/
structure Display where
  /-- Marks are symbols, and headers stand by themselves. -/
  styled : Bool := false
  /-- Only failures and documents are printed. -/
  quiet : Bool := false
deriving DecidableEq, Repr

namespace Display

/-- The width of the labels of rows. -/
def labelWidth : Nat := 22

/-- A text with blanks after it, up to a width. -/
def padEnd (width : Nat) (s : String) : String :=
  s ++ String.ofList (List.replicate (width - s.length) ' ')

/-- The line of a header. -/
def headerLine (d : Display) (title : String) : String :=
  if d.styled then title else "=== " ++ title ++ " ==="

/-- The line of a row. -/
def rowLine (label value : String) : String := "  " ++ padEnd labelWidth label ++ " " ++ value

/-- The line of a message, with one of two marks in front. -/
def messageLine (d : Display) (symbol word message : String) : String :=
  (if d.styled then symbol else word) ++ " " ++ message

variable {m : Type → Type} [Monad m] [Host m] (d : Display)

/-- Prints a line unless the display is quiet. -/
def unlessQuiet (line : String) : m Unit := if d.quiet then return else Host.printLine line

/-- Prints a header. -/
def header (title : String) : m Unit := d.unlessQuiet (d.headerLine title)

/-- Prints a row. -/
def row (label value : String) : m Unit := d.unlessQuiet (rowLine label value)

/-- Prints a row with a number. -/
def countRow (label : String) (n : Nat) : m Unit := d.row label (toString n)

/-- Prints that something went well. -/
def success (message : String) : m Unit := d.unlessQuiet (d.messageLine "✓" "OK" message)

/-- Prints a warning. -/
def warning (message : String) : m Unit := d.unlessQuiet (d.messageLine "⚠" "WARN" message)

/-- Prints a failure, even if the display is quiet. -/
def failure (message : String) : m Unit := Host.printLine (d.messageLine "✗" "FAIL" message)

end Display

end TraceWeave
