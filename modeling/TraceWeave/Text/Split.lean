/-!
# Splitting text

Texts are read as lists of characters.  This file holds the ways in which the readers of this
library cut a text: at every separator, at the first one, into lines, and by a common part.
-/

namespace TraceWeave.Text

/-- The pieces of a text between separators: one more than there are separators. -/
def splitOn (sep : Char) (l : List Char) : List (List Char) :=
  l.foldr (fun c pieces =>
    if c = sep then [] :: pieces
    else match pieces with
      | [] => [[c]]
      | piece :: rest => (c :: piece) :: rest) [[]]

/-- The texts before and after the first separator, or nothing if there is no separator. -/
def splitFirst? (sep : Char) (l : List Char) : Option (List Char × List Char) :=
  match l.dropWhile (· ≠ sep) with
  | [] => none
  | _ :: after => some (l.takeWhile (· ≠ sep), after)

/-- The text after the last separator, or all of it if there is no separator. -/
def afterLast (sep : Char) (l : List Char) : List Char :=
  (l.reverse.takeWhile (· ≠ sep)).reverse

/-- A line that was closed by a line feed, without the carriage return before that line feed. -/
def dropCarriage (l : List Char) : List Char :=
  match l.reverse with
  | '\x0d' :: rest => rest.reverse
  | _ => l

/-- The lines of a text.  A line feed closes a line, with or without a carriage return before it;
text after the last line feed is a line of its own unless it is empty. -/
def lines (l : List Char) : List (List Char) :=
  let pieces := splitOn '\n' l
  let last := pieces.getLastD []
  pieces.dropLast.map dropCarriage ++ (if last.isEmpty then [] else [last])

/-- Whether the characters of `part` stand in a row somewhere in the text. -/
def hasPart (part : List Char) : List Char → Bool
  | [] => part.isEmpty
  | c :: rest => part.isPrefixOf (c :: rest) || hasPart part rest

/-- The text after `start`, if it begins with `start`. -/
def dropStart? (start l : List Char) : Option (List Char) :=
  if start.isPrefixOf l then some (l.drop start.length) else none

/-- Whether `part` occurs in `s`. -/
def occursIn (part s : String) : Bool := hasPart part.toList s.toList

/-- The number that a text of decimal digits writes, with an optional plus sign before them. -/
def natural? (l : List Char) : Option Nat :=
  let digits := (dropStart? ['+'] l).getD l
  if digits.isEmpty || !digits.all Char.isDigit then none
  else some (digits.foldl (fun n c => 10 * n + (c.toNat - '0'.toNat)) 0)

end TraceWeave.Text
