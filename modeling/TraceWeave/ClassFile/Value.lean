import TraceWeave.Json.Fields
import TraceWeave.Value.Basic
/-!
# Types and constants in class files

A type is its name, or a variant that names a class or holds an element type.  A constant is a
variant named for its kind.
-/

namespace TraceWeave

open Json

namespace Ty

/-- The types that are written as a name alone. -/
def plain : List Ty := [.int, .long, .float, .double, .boolean, .char, .byte, .short, .void]

/-- The plain type with a name. -/
def ofName? (name : String) : Option Ty := plain.find? fun t => t.text == name

/-- The document of a type. -/
def toJson : Ty → Json
  | .ref name => variant "ref" (.string name)
  | .array element => variant "array" element.toJson
  | t => .string t.text

/-- Reads a type. -/
def ofJson? : Nat → Json → Option Ty
  | _, .string name => ofName? name
  | levels + 1, .object [(some name, content)] =>
    match name with
    | "ref" => content.text?.map .ref
    | "array" => (ofJson? levels content).map .array
    | name => if isUnit (some content) then ofName? name else none
  | _, _ => none

end Ty

/-- How floats are written. -/
structure FloatForm where
  /-- The document of a 32-bit float. -/
  single : Float32 → Json
  /-- The document of a 64-bit float. -/
  double : Float → Json

namespace FloatForm

/-- The layout of 32-bit floats in files: in place from 0.000001 up to 10^13. -/
def singleLayout : Floating.Layout := ⟨-5, 13, .even, .plus⟩

/-- The layout of 64-bit floats in files: in place from 0.00001 up to 10^16. -/
def doubleLayout : Floating.Layout := ⟨-4, 16, .even, .plus⟩

/-- Floats in files are numbers; infinities and what is no number have no written form and become
null. -/
def file : FloatForm where
  single x := ((Floating.single.numeral? singleLayout x.toBits.toNat).map .number).getD .null
  double x := ((Floating.double.numeral? doubleLayout x.toBits.toNat).map .number).getD .null

end FloatForm

namespace Value

/-- The document of a constant. -/
def toJson (floats : FloatForm) : Value → Json
  | .int n => variant "int" (.ofInt n.toInt)
  | .long n => variant "long" (.ofInt n.toInt)
  | .float x => variant "float" (floats.single x)
  | .double x => variant "double" (floats.double x)
  | .bool b => variant "bool" (.bool b)
  | .char c => variant "char" (.string c.toString)
  | .str s => variant "str" (.string s)
  | .null => .string "null"

/-- Reads the content of a constant of a kind. -/
def ofContent? (kind : String) (content : Json) : Option Value :=
  match kind with
  | "int" => content.int32?.map .int
  | "long" => content.int64?.map .long
  | "float" => content.single?.map .float
  | "double" => content.double?.map .double
  | "bool" => content.bool?.map .bool
  | "char" => content.char?.map .char
  | "str" => content.text?.map .str
  | "null" => if isUnit (some content) then some .null else none
  | _ => none

/-- Reads a constant. -/
def ofJson? : Nat → Json → Option Value
  | _, .string "null" => some .null
  | _ + 1, .object [(some kind, content)] => ofContent? kind content
  | _, _ => none

end Value

end TraceWeave
