/-!
# What commands ask of their surroundings

Commands reach files and the console through this interface only.  Nothing here throws: an operation
that fails says so in its result.
-/

namespace TraceWeave

/-- Files, directories and the console. -/
class Host (m : Type → Type) where
  /-- Whether a path leads to a directory. -/
  isDirectory : String → m Bool
  /-- The names in a directory, in any order, if it can be read. -/
  names? : String → m (Option (List String))
  /-- The text of a file, if it can be read. -/
  read? : String → m (Option String)
  /-- Writes a file, which need not exist.  Returns whether it was written. -/
  write : String → String → m Bool
  /-- Appends to a file, which need not exist.  Returns whether it was written. -/
  append : String → String → m Bool
  /-- Makes a directory and those that it lies in, unless they exist.  Returns whether it exists
  then. -/
  makeDirectory : String → m Bool
  /-- Prints a line. -/
  printLine : String → m Unit

end TraceWeave
