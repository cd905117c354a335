import TraceWeave.Text.Blank
import TraceWeave.Text.Split
import TraceWeave.Trace.Event
/-!
# Reading trace records

Records are read back by a lenient grammar: one brace is dropped at each end, the rest is cut at
every comma, each piece is cut at its first colon, and one pair of quotes is dropped from either
side.  Nothing is refused; a piece without a colon says nothing.
-/

namespace TraceWeave.Record

open Text

/-- A trimmed text without one pair of quotes around it. -/
def unquote (l : List Char) : List Char :=
  let l := trim l
  match l with
  | '"' :: rest =>
    match rest.reverse with
    | '"' :: inner => inner.reverse
    | _ => l
  | _ => l

/-- A trimmed record without one opening brace at its start and one closing brace at its end. -/
def inside (record : List Char) : List Char :=
  let l := trim record
  let l := match l with
    | '\x7b' :: rest => rest
    | l => l
  match l.reverse with
  | '\x7d' :: rest => rest.reverse
  | _ => l

/-- The key and the value in a piece of a record. -/
def pair? (piece : List Char) : Option (String × String) :=
  (splitFirst? ':' (trim piece)).map fun p =>
    (String.ofList (unquote p.1), String.ofList (unquote p.2))

/-- The keys and values of a record, in order and with repetitions. -/
def pairs (record : String) : List (String × String) :=
  (splitOn ',' (inside record.toList)).filterMap pair?

/-- The value of a key: of a repeated key the last one. -/
def get? (record key : String) : Option String :=
  ((pairs record).reverse.find? fun p => p.1 == key).map (·.2)

/-- The keys of a record with their values, each key once. -/
def fields (record : String) : List (String × String) :=
  (pairs record).foldr (fun p later => if later.any (·.1 == p.1) then later else p :: later) []

/-- The value of a key, or nothing at all where the key is missing. -/
def getText (record key : String) : String := (get? record key).getD ""

/-- The file and the line of a record, by which reached lines are told apart. -/
def lineKey (record : String) : String := getText record "file" ++ ":" ++ getText record "line"

/-- The file, line and index of a record, by which branches are told apart. -/
def branchKey (record : String) : String := lineKey record ++ ":" ++ getText record "index"

/-- The kind that an object-shaped record names. -/
def namedKind : Option String → EventKind
  | some "EXERCISED" => .exercised
  | some "SUBCONDITION_CHECKED" => .subconditionChecked
  | some "CONDITION" => .condition
  | some "VAR" => .var
  | some "FIELD_ACCESSED" => .fieldAccessed
  | _ => .unknown

/-- The kind of a record. -/
def kind (record : String) : EventKind :=
  let l := trim record.toList
  if Event.testStartMark.toList.isPrefixOf l then .testStart
  else if Event.testEndMark.toList.isPrefixOf l then .testEnd
  else namedKind (get? record "event")

end TraceWeave.Record
