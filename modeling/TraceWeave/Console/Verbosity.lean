/-!
# How much a command prints
-/

namespace TraceWeave

/-- How much a command prints and logs. -/
inductive Verbosity where
  /-- Failures only. -/
  | quiet
  /-- The usual output. -/
  | normal
  /-- Passing tests as well. -/
  | verbose
  /-- Everything. -/
  | debug
deriving DecidableEq, Repr

namespace Verbosity

/-- The verbosity that flags ask for: quiet wins, otherwise requests for more add up. -/
def ofFlags (quiet : Bool) (verbose : Nat) : Verbosity :=
  if quiet then .quiet
  else match verbose with
    | 0 => .normal
    | 1 => .verbose
    | _ => .debug

/-- Whether only failures are printed. -/
def isQuiet (v : Verbosity) : Bool := v == .quiet

/-- Whether more than the usual output is printed. -/
def isVerbose (v : Verbosity) : Bool := v == .verbose || v == .debug

/-- The least severity that is logged. -/
def logLevel : Verbosity → String
  | .quiet => "error"
  | .normal => "warn"
  | .verbose => "info"
  | .debug => "debug"

end Verbosity

end TraceWeave
