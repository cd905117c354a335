import TraceWeave.Floating.Convert
import TraceWeave.Floating.Text
import TraceWeave.Text.Escape
import TraceWeave.Ty
/-!
# Values

A `Value` is a constant of a program and also what an expression evaluates to.  A value has three
texts: as it is written in a listing, as a trace shows it, and with its kind, for messages.
-/

namespace TraceWeave

open Floating Text

/-- A value.  Bytes and shorts are carried as `int`. -/
inductive Value where
  /-- A 32-bit whole number. -/
  | int (n : Int32)
  /-- A 64-bit whole number. -/
  | long (n : Int64)
  /-- A 32-bit float. -/
  | float (x : Float32)
  /-- A 64-bit float. -/
  | double (x : Float)
  /-- A truth value. -/
  | bool (b : Bool)
  /-- A character. -/
  | char (c : Char)
  /-- A character string. -/
  | str (s : String)
  /-- The null reference. -/
  | null
deriving DecidableEq

namespace Value

/-- The static type of a constant. -/
def ty : Value → Ty
  | .int _ => .int
  | .long _ => .long
  | .float _ => .float
  | .double _ => .double
  | .bool _ => .boolean
  | .char _ => .char
  | .str _ => .string
  | .null => .object

/-- The zero of a type: what a field without an initial value holds, and what a negated operand is
compared with. -/
def zero : Ty → Value
  | .boolean => .bool false
  | .long => .long 0
  | .float => .float 0
  | .double => .double 0
  | .ref _ | .array _ | .void => .null
  | _ => .int 0

/-- A truth value as text. -/
def boolText (b : Bool) : String := if b then "true" else "false"

/-- The value as it is written in a listing. -/
def literalText : Value → String
  | .int n => toString n.toInt
  | .long n => toString n.toInt ++ "L"
  | .float x => singleText x ++ "F"
  | .double x => doubleText x
  | .bool b => boolText b
  | .char c => quoteChar c
  | .str s => quoteText s
  | .null => "null"

/-- The value as text. -/
def text : Value → String
  | .int n => toString n.toInt
  | .long n => toString n.toInt
  | .float x => singleText x
  | .double x => doubleText x
  | .bool b => boolText b
  | .char c => c.toString
  | .str s => s
  | .null => "null"

instance : ToString Value := ⟨text⟩

/-- The value with its kind, as messages show it. -/
def kindText : Value → String
  | .int n => "Int(" ++ toString n.toInt ++ ")"
  | .long n => "Long(" ++ toString n.toInt ++ ")"
  | .float x => "Float(" ++ singleText x ++ ")"
  | .double x => "Double(" ++ doubleText x ++ ")"
  | .bool b => "Bool(" ++ boolText b ++ ")"
  | .char c => "Char(" ++ quoteChar c ++ ")"
  | .str s => "Str(" ++ quoteText s ++ ")"
  | .null => "Null"

/-- What a trace shows for a value whose type is not written out. -/
def untraceable : String := "[unsupported type]"

/-- What a trace shows for a value held by a variable of type `t`. -/
def render (t : Ty) (v : Value) : String := if t.isTraceable then v.text else untraceable

end Value

end TraceWeave
