/-!
# Kinds of failure

Failures are told apart by kind; a kind fixes the sentence in which a failure is reported.
-/

namespace TraceWeave

/-- A kind of failure. -/
inductive FailureKind where
  /-- A condition holds a node that cannot be decomposed. -/
  | unsupported
  /-- A setting or a selection is not well formed. -/
  | configuration
  /-- A method body is inconsistent. -/
  | malformed
  /-- A program failed while it ran. -/
  | execution
deriving DecidableEq, Repr

namespace FailureKind

/-- The sentence that reports a failure.  `site` names the method concerned; only two kinds show
it. -/
def sentence (kind : FailureKind) (site message : String) : String :=
  match kind with
  | .unsupported => "Unsupported construct in " ++ site ++ ": " ++ message
  | .configuration => "Configuration error: " ++ message
  | .malformed => "Malformed IR: " ++ message
  | .execution => "Execution failed in " ++ site ++ ": " ++ message

/-- A failure that concerns one method only, so that others can still be woven. -/
def isMethodLocal : FailureKind → Bool
  | .unsupported | .malformed => true
  | .configuration | .execution => false

end FailureKind

end TraceWeave
