import TraceWeave.Console.Host
import TraceWeave.Text.Split
/-!
# A tree of files

A host that keeps its files in memory and remembers what was printed.  Paths are followed from the
root of the tree.  The directories above the root exist, and are empty at first; absolute paths lead
nowhere.
-/

namespace TraceWeave

/-- Files and directories by their location: the names on the way from the root, where two dots lead
to the directory above. -/
structure FileTree where
  /-- The directories, the root aside. -/
  directories : List (List String) := []
  /-- The files with their texts. -/
  files : List (List String × String) := []

namespace FileTree

instance : EmptyCollection FileTree := ⟨{}⟩

/-- Whether a location is the root or a directory above it. -/
def isAbove (location : List String) : Bool := location.all (· == "..")

/-- The location of the directory that a location lies in. -/
def parent (location : List String) : List String :=
  if isAbove location then location ++ [".."] else location.dropLast

/-- Whether there is a directory at a location. -/
def hasDirectory (t : FileTree) (location : List String) : Bool :=
  isAbove location || t.directories.contains location

/-- The text of the file at a location. -/
def textAt? (t : FileTree) (location : List String) : Option String := t.files.lookup location

/-- The greatest number of bytes in a name. -/
def maxNameLength : Nat := 255

/-- The greatest number of bytes in a path. -/
def maxPathLength : Nat := 4095

/-- A path that can be followed at all. -/
def isUsable (path : String) : Bool :=
  !path.isEmpty && !path.startsWith "/" && path.utf8ByteSize ≤ maxPathLength

/-- A name that a file can have. -/
def isName (name : String) : Bool :=
  name.utf8ByteSize ≤ maxNameLength && !name.toList.contains '\x00'

/-- The parts of a path. -/
def parts (path : String) : List String := (Text.splitOn '/' path.toList).map String.ofList

/-- Follows parts of a path from a location.  Everything that they pass through is a directory; what
they end at need not exist. -/
def follow? (t : FileTree) (location : List String) : List String → Option (List String)
  | [] => some location
  | part :: rest =>
    if !t.hasDirectory location then none
    else if part = "" || part = "." then t.follow? location rest
    else if part = ".." then t.follow? (parent location) rest
    else if isName part then t.follow? (location ++ [part]) rest
    else none

/-- The location of a path. -/
def locate? (t : FileTree) (path : String) : Option (List String) :=
  if isUsable path then t.follow? [] (parts path) else none

/-- Whether a path leads to a directory. -/
def isDirectory (t : FileTree) (path : String) : Bool := (t.locate? path).any t.hasDirectory

/-- The name under which a location stands in a directory, if it stands there. -/
def nameIn? (directory : List String) : List String → Option String
  | [] => none
  | location => if location.dropLast = directory then location.getLast? else none

/-- Whether a location lies in the tree, and not above it. -/
def isInside (location : List String) : Bool := location.head? != some ".."

/-- The names in the directory that a path leads to. -/
def names? (t : FileTree) (path : String) : Option (List String) :=
  (t.locate? path).bind fun location =>
    if t.hasDirectory location then
      some ((t.directories ++ t.files.map (·.1)).filterMap (nameIn? location))
    else none

/-- The text of the file that a path leads to. -/
def read? (t : FileTree) (path : String) : Option String := (t.locate? path).bind t.textAt?

/-- The tree in which a file has a text. -/
def put (t : FileTree) (location : List String) (text : String) : FileTree :=
  { t with files := (t.files.filter fun f => f.1 ≠ location) ++ [(location, text)] }

/-- The tree in which the file that a path leads to has a text, if there can be such a file. -/
def write? (t : FileTree) (path text : String) : Option FileTree :=
  (t.locate? path).bind fun location =>
    if t.hasDirectory location then none else some (t.put location text)

/-- The tree in which the file that a path leads to has further text, if there can be such a
file. -/
def append? (t : FileTree) (path text : String) : Option FileTree :=
  (t.locate? path).bind fun location =>
    if t.hasDirectory location then none
    else some (t.put location ((t.textAt? location).getD "" ++ text))

/-- The tree in which there is a directory at a location, unless a file is there. -/
def addDirectory? (t : FileTree) (location : List String) : Option FileTree :=
  if t.hasDirectory location then some t
  else if (t.textAt? location).isSome then none
  else some { t with directories := t.directories ++ [location] }

/-- Makes the directories on the way along parts of a path. -/
def makeAlong? (t : FileTree) (location : List String) : List String → Option FileTree
  | [] => some t
  | part :: rest =>
    if part = "" || part = "." then t.makeAlong? location rest
    else if part = ".." then t.makeAlong? (parent location) rest
    else if isName part then
      (t.addDirectory? (location ++ [part])).bind fun t => t.makeAlong? (location ++ [part]) rest
    else none

/-- The tree in which a path leads to a directory, if it can. -/
def makeDirectory? (t : FileTree) (path : String) : Option FileTree :=
  if isUsable path then t.makeAlong? [] (parts path) else none

end FileTree

/-- A tree of files and a console. -/
structure Desk where
  /-- The files. -/
  tree : FileTree := ∅
  /-- The printed lines, last line first. -/
  printed : List String := []

namespace Desk

/-- What was printed. -/
def output (d : Desk) : String := String.join (d.printed.reverse.map (· ++ "\n"))

/-- Puts a changed tree into place; returns false if there is none. -/
def change (tree? : FileTree → Option FileTree) : StateM Desk Bool := fun d =>
  match tree? d.tree with
  | some tree => (true, { d with tree })
  | none => (false, d)

instance : Host (StateM Desk) where
  isDirectory path := return (← get).tree.isDirectory path
  names? path := return (← get).tree.names? path
  read? path := return (← get).tree.read? path
  write path text := change (·.write? path text)
  append path text := change (·.append? path text)
  makeDirectory path := change (·.makeDirectory? path)
  printLine line := modify fun d => { d with printed := line :: d.printed }

end Desk

end TraceWeave
