import TraceWeave.Json.Token
/-!
# Reading JSON

Builds the tree of a JSON text from its tokens.  The builder keeps the containers that are still
open on a stack and knows what may come next, so reading is one pass over the tokens, whatever the
nesting.
-/

namespace TraceWeave.Json

/-- A container that is still open, with its content so far, last item first. -/
inductive Frame where
  /-- An array. -/
  | array (items : List Json)
  /-- An object between two members. -/
  | object (members : List (Option String × Json))
  /-- An object whose member with this name waits for its value. -/
  | member (members : List (Option String × Json)) (name : Option String)

/-- What may come next. -/
inductive Expected where
  /-- A value. -/
  | value
  /-- A value, or the end of an array without items. -/
  | firstItem
  /-- A member name, or the end of an object without members. -/
  | firstName
  /-- A member name. -/
  | name
  /-- The colon after a member name. -/
  | colon
  /-- A comma or the end of the innermost container. -/
  | next
  /-- Nothing: the document is complete. -/
  | done (document : Json)

/-- The state of reading: open containers, innermost first, and what may come next. -/
structure Builder where
  /-- The containers that are still open, innermost first. -/
  frames : List Frame := []
  /-- What may come next. -/
  expected : Expected := .value

namespace Builder

/-- Puts a finished value into the innermost open container. -/
def place (value : Json) : List Frame → Option Builder
  | [] => some { expected := .done value }
  | .array items :: rest => some { frames := .array (value :: items) :: rest, expected := .next }
  | .member members name :: rest =>
    some { frames := .object ((name, value) :: members) :: rest, expected := .next }
  | .object _ :: _ => none

/-- Takes the first token of a value. -/
def startValue (frames : List Frame) : Token → Option Builder
  | .openArray => some { frames := .array [] :: frames, expected := .firstItem }
  | .openObject => some { frames := .object [] :: frames, expected := .firstName }
  | .null => place .null frames
  | .bool b => place (.bool b) frames
  | .number n => place (.number n) frames
  | .string (some s) => place (.string s) frames
  | .string none => place .unpaired frames
  | _ => none

/-- Takes the name of a member. -/
def startMember (name : Option String) : List Frame → Option Builder
  | .object members :: rest =>
    some { frames := .member members name :: rest, expected := .colon }
  | _ => none

/-- Closes the innermost container. -/
def close : Token → List Frame → Option Builder
  | .closeArray, .array items :: rest => place (.array items.reverse) rest
  | .closeObject, .object members :: rest => place (.object members.reverse) rest
  | _, _ => none

/-- Takes one token. -/
def step (b : Builder) (token : Token) : Option Builder :=
  match b.expected, token with
  | .value, token => startValue b.frames token
  | .firstItem, .closeArray => close .closeArray b.frames
  | .firstItem, token => startValue b.frames token
  | .firstName, .closeObject => close .closeObject b.frames
  | .firstName, .string name => startMember name b.frames
  | .name, .string name => startMember name b.frames
  | .colon, .colon => some { b with expected := .value }
  | .next, .comma =>
    match b.frames with
    | .array _ :: _ => some { b with expected := .value }
    | .object _ :: _ => some { b with expected := .name }
    | _ => none
  | .next, token => close token b.frames
  | _, _ => none

/-- The finished document. -/
def document? (b : Builder) : Option Json :=
  match b.expected with
  | .done document => some document
  | _ => none

end Builder

/-- The document that a sequence of tokens writes. -/
def ofTokens? (tokens : List Token) : Option Json := do
  let b ← tokens.foldlM Builder.step {}
  b.document?

/-- The document that a text writes. -/
def parse? (text : String) : Option Json := do
  ofTokens? (← tokens? text.toList)

end TraceWeave.Json
