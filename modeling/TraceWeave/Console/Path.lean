import TraceWeave.Text.Split
/-!
# Paths

Paths are texts whose parts stand between slashes.
-/

namespace TraceWeave.Path

open Text

/-- A path that is followed from a directory.  An absolute path stays as it is. -/
def join (directory path : String) : String :=
  if path.startsWith "/" || directory.isEmpty then path
  else if directory.endsWith "/" then directory ++ path
  else directory ++ "/" ++ path

/-- The ending of a file name after its last dot.  A name that has no other dot than its first
character has no ending. -/
def ending? (name : String) : Option String :=
  match splitFirst? '.' name.toList.reverse with
  | none | some (_, []) => none
  | some (ending, _) => some (String.ofList ending.reverse)

end TraceWeave.Path
