import TraceWeave.Numeral.Basic
/-!
# JSON documents

The tree of a JSON document.  Numbers keep their written form, members keep their order, and a
string whose escapes leave a surrogate unpaired is kept as such: it denotes no text, and only a
reader that wants one refuses it.
-/

namespace TraceWeave

/-- A JSON value. -/
inductive Json where
  /-- The literal `null`. -/
  | null
  /-- A truth value. -/
  | bool (b : Bool)
  /-- A number, as it is written. -/
  | number (n : Numeral)
  /-- A string. -/
  | string (s : String)
  /-- A string with an unpaired surrogate, which denotes no text. -/
  | unpaired
  /-- An array. -/
  | array (items : List Json)
  /-- An object: its members in order.  A name is missing where it denotes no text. -/
  | object (members : List (Option String × Json))

namespace Json

/-- A whole number. -/
def ofInt (n : Int) : Json := .number (.ofInt n)

/-- A natural number. -/
def ofNat (n : Nat) : Json := ofInt n

/-- An object from names and values. -/
def record (members : List (String × Json)) : Json :=
  .object (members.map fun m => (some m.1, m.2))

/-- The value of the last member with a name, if the value is an object that has one. -/
def member? (name : String) : Json → Option Json
  | .object members => (members.reverse.find? fun m => m.1 == some name).map (·.2)
  | _ => none

end Json

end TraceWeave
