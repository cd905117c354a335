import TraceWeave.Json.Basic
import TraceWeave.Numeral.Float
/-!
# Reading typed documents

What the readers of typed documents share: texts, truth values and bounded numbers, the fields of a
record, and the choice between variants.

A record is an object in any order, where unknown members are passed over and known ones stand once,
or an array of its fields in the order of their declaration.  A variant is a name alone if it
carries nothing, and otherwise an object whose only member has that name.

Readers count down the levels of nesting that may still be opened.  Members that are passed over do
not count: they may be nested at will.
-/

namespace TraceWeave.Json

/-- The greatest number of nested arrays and objects in the part of a document that is read. -/
def maxNesting : Nat := 127

/-- Reads a text. -/
def text? : Json → Option String
  | .string s => some s
  | _ => none

/-- Reads a text of exactly one character. -/
def char? (j : Json) : Option Char :=
  match j.text?.map String.toList with
  | some [c] => some c
  | _ => none

/-- Reads a truth value. -/
def bool? : Json → Option Bool
  | .bool b => some b
  | _ => none

/-- Reads a whole number. -/
def int? : Json → Option Int
  | .number n => n.toInt?
  | _ => none

/-- Reads a whole number that lies between two bounds. -/
def intWithin? (least greatest : Int) (j : Json) : Option Int :=
  j.int?.bind fun n => if least ≤ n && n ≤ greatest then some n else none

/-- Reads a 32-bit whole number. -/
def int32? (j : Json) : Option Int32 :=
  (j.intWithin? Int32.minValue.toInt Int32.maxValue.toInt).map Int32.ofInt

/-- Reads a 64-bit whole number. -/
def int64? (j : Json) : Option Int64 :=
  (j.intWithin? Int64.minValue.toInt Int64.maxValue.toInt).map Int64.ofInt

/-- Reads an unsigned 32-bit number. -/
def uint32? (j : Json) : Option UInt32 :=
  (j.intWithin? 0 (UInt32.size - 1)).map fun n => .ofNat n.toNat

/-- Reads an unsigned 64-bit number. -/
def uint64? (j : Json) : Option UInt64 :=
  (j.intWithin? 0 (UInt64.size - 1)).map fun n => .ofNat n.toNat

/-- Reads a 32-bit float. -/
def single? : Json → Option Float32
  | .number n => n.toSingle?
  | _ => none

/-- Reads a 64-bit float. -/
def double? : Json → Option Float
  | .number n => n.toDouble?
  | _ => none

/-- Reads a value that may be null. -/
def nullable? {α : Type} (read : Json → Option α) : Json → Option (Option α)
  | .null => some none
  | j => (read j).map some

/-- Reads an array of values. -/
def list? {α : Type} (read : Nat → Json → Option α) : Nat → Json → Option (List α)
  | levels + 1, .array items => items.mapM (read levels)
  | _, _ => none

/-! ## Records -/

/-- The values of the members with a name. -/
def valuesOf (name : String) (members : List (Option String × Json)) : List Json :=
  (members.filter fun m => m.1 == some name).map (·.2)

/-- The value of the only member with a name, if there is one at all. -/
def only? : List Json → Option (Option Json)
  | [] => some none
  | [j] => some (some j)
  | _ => none

/-- The fields of a record by declared names; a field that is missing is `none`. -/
def fields? (names : List String) : Json → Option (List (Option Json))
  | .object members =>
    if members.all (·.1.isSome) then names.mapM fun name => only? (valuesOf name members) else none
  | .array items =>
    if items.length ≤ names.length then
      some (items.map some ++ List.replicate (names.length - items.length) none)
    else none
  | _ => none

/-- Reads a field that may be missing. -/
def fieldOr {α : Type} (default : α) (read : Json → Option α) : Option Json → Option α
  | none => some default
  | some j => read j

/-! ## Variants -/

/-- The name and the content of a variant; a name alone has no content. -/
def variant? : Json → Option (String × Option Json)
  | .string name => some (name, none)
  | .object [(some name, content)] => some (name, some content)
  | _ => none

/-- A variant with content. -/
def variant (name : String) (content : Json) : Json := record [(name, content)]

/-- Whether the content of a variant is that of one which carries nothing. -/
def isUnit : Option Json → Bool
  | none | some .null => true
  | _ => false

end TraceWeave.Json
