import TraceWeave.Json.Basic
/-!
# Writing JSON

Two layouts: compact, without any blank space, and indented, with every item on a line of its own,
two spaces per level and a space after each colon.  Empty containers are closed at once.
-/

namespace TraceWeave.Json

/-- The digit of a hexadecimal number below sixteen. -/
def hexDigit (n : Nat) : Char := (Nat.toDigits 16 n).headD '0'

/-- The written form of a character in a string. -/
def escape (c : Char) : List Char :=
  if c = '"' then ['\\', '"']
  else if c = '\\' then ['\\', '\\']
  else if c = '\x08' then ['\\', 'b']
  else if c = '\x0c' then ['\\', 'f']
  else if c = '\n' then ['\\', 'n']
  else if c = '\x0d' then ['\\', 'r']
  else if c = '\t' then ['\\', 't']
  else if c < ' ' then ['\\', 'u', '0', '0', hexDigit (c.toNat / 16), hexDigit (c.toNat % 16)]
  else [c]

/-- The written form of a string. -/
def writeString (s : String) : List Char := '"' :: s.toList.flatMap escape ++ ['"']

/-- The written form of a member name; a name that denotes no text is written as an unpaired
surrogate. -/
def writeName : Option String → List Char
  | some s => writeString s
  | none => ['"', '\\', 'u', 'd', '8', '0', '0', '"']

/-- Values with commas between them. -/
def commaSeparated (parts : List (List Char)) : List Char := [','].intercalate parts

mutual

/-- The compact form of a value. -/
def compact : Json → List Char
  | .null => ['n', 'u', 'l', 'l']
  | .bool true => ['t', 'r', 'u', 'e']
  | .bool false => ['f', 'a', 'l', 's', 'e']
  | .number n => n.text
  | .string s => writeString s
  | .unpaired => writeName none
  | .array items => '[' :: commaSeparated (compactItems items) ++ [']']
  | .object members => '\x7b' :: commaSeparated (compactMembers members) ++ ['\x7d']

/-- The compact forms of array items. -/
def compactItems : List Json → List (List Char)
  | [] => []
  | item :: rest => compact item :: compactItems rest

/-- The compact forms of members. -/
def compactMembers : List (Option String × Json) → List (List Char)
  | [] => []
  | (name, value) :: rest => (writeName name ++ ':' :: compact value) :: compactMembers rest

end

/-- The start of a line at an indentation level. -/
def lineStart (level : Nat) : List Char := '\n' :: List.replicate (2 * level) ' '

mutual

/-- The indented form of a value at a level. -/
def indented (level : Nat) : Json → List Char
  | .null => ['n', 'u', 'l', 'l']
  | .bool true => ['t', 'r', 'u', 'e']
  | .bool false => ['f', 'a', 'l', 's', 'e']
  | .number n => n.text
  | .string s => writeString s
  | .unpaired => writeName none
  | .array [] => ['[', ']']
  | .array items =>
    '[' :: commaSeparated (indentedItems (level + 1) items) ++ lineStart level ++ [']']
  | .object [] => ['\x7b', '\x7d']
  | .object members =>
    '\x7b' :: commaSeparated (indentedMembers (level + 1) members) ++ lineStart level ++ ['\x7d']

/-- The indented forms of array items, each on its own line. -/
def indentedItems (level : Nat) : List Json → List (List Char)
  | [] => []
  | item :: rest => (lineStart level ++ indented level item) :: indentedItems level rest

/-- The indented forms of members, each on its own line. -/
def indentedMembers (level : Nat) : List (Option String × Json) → List (List Char)
  | [] => []
  | (name, value) :: rest =>
    (lineStart level ++ writeName name ++ ':' :: ' ' :: indented level value) ::
      indentedMembers level rest

end

/-- A document on one line. -/
def print (j : Json) : String := String.ofList (compact j)

/-- A document with one item per line. -/
def pretty (j : Json) : String := String.ofList (indented 0 j)

end TraceWeave.Json
