import TraceWeave.Console.Running
import TraceWeave.Console.Summarizing
import TraceWeave.Console.Weaving
/-!
# Carrying out commands
-/

namespace TraceWeave

variable {m : Type → Type} [Monad m] [Host m]

namespace Invocation

/-- How an invocation prints, where `terminal` tells whether the output is a terminal. -/
def display (i : Invocation) (terminal : Bool) : Display where
  styled := match i.color with
    | .auto => terminal
    | .always => true
    | .never => false
  quiet := i.verbosity.isQuiet

/-- Carries out a command. -/
def perform (i : Invocation) (terminal : Bool) : CommandM m Unit :=
  match i.command with
  | .weave r => r.perform (i.display terminal)
  | .run r => r.perform (i.display terminal) i.verbosity.isVerbose
  | .summarize r => r.perform (i.display terminal)

end Invocation

end TraceWeave
