import TraceWeave.ClassFile.Program
import TraceWeave.Console.Error
import TraceWeave.Console.Path
import TraceWeave.Listing
import TraceWeave.SettingsFile
/-!
# Classes and settings in files

Where the classes of a project are found, how they are loaded and where they are written.
-/

namespace TraceWeave

variable {m : Type → Type} [Monad m] [Host m]

namespace ClassStore

/-- The paths of everything in a directory, by ascending name. -/
def entries (directory : String) : CommandM m (List String) := do
  let names ← orFail (.unreadable directory) (← Host.names? directory)
  return (ascending names).map (Path.join directory)

/-- Whether a directory is a module: it has sources and a place for classes. -/
def isModule (path : String) : m Bool := do
  if ← Host.isDirectory (Path.join path "src") then Host.isDirectory (Path.join path "target")
  else return false

/-- The modules of a project: the modules that lie in it, or the project itself if there are
none. -/
def modules (project : String) : CommandM m (List String) := do
  ensure (.argument (.missingProject project)) (← Host.isDirectory project)
  let modules ← (← entries project).filterM fun path => isModule path
  return if modules.isEmpty then [project] else modules

/-- Whether a path names a class file. -/
def isClassFile (path : String) : Bool :=
  Path.ending? (String.ofList (Text.afterLast '/' path.toList)) = some "json"

/-- Loads a class. -/
def loadClass (path : String) : CommandM m Class := do
  let text ← orFail (.unreadable path) (← Host.read? path)
  orFail (.invalidClass path) (Class.ofFileText? text)

/-- Loads the classes of a directory, by ascending file name.  A directory that does not exist has
none. -/
def load (directory : String) : CommandM m (List Class) := do
  if ← Host.isDirectory directory then
    ((← entries directory).filter isClassFile).mapM loadClass
  else return []

/-- The text that is written for a class. -/
def textOf : OutputMode → Class → String
  | .text, c => Listing.classText c
  | .binary, c => c.fileText

/-- The path to which a class is written. -/
def pathOf (directory : String) (mode : OutputMode) (c : Class) : String :=
  Path.join directory (c.name ++ "." ++ mode.ending)

/-- Writes a class into a directory. -/
def writeClass (directory : String) (mode : OutputMode) (c : Class) : CommandM m Unit := do
  let path := pathOf directory mode c
  ensure (.unwritable path) (← Host.write path (textOf mode c))

/-- Writes classes into a directory, which is made if there are any. -/
def write (directory : String) (mode : OutputMode) (classes : List Class) : CommandM m Unit := do
  if classes.isEmpty then return
  ensure (.unwritable directory) (← Host.makeDirectory directory)
  classes.forM fun c => writeClass directory mode c

/-- Loads settings; without a file they are the usual ones. -/
def settings : Option String → CommandM m Settings
  | none => return {}
  | some path => do
    let text ← orFail (.unreadableSettings path) (← Host.read? path)
    orFail (.invalidSettings path) (Settings.ofFileText? text)

end ClassStore

end TraceWeave
