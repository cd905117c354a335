/-!
# Written numbers

A `Numeral` is a number as it stands in a text: a sign, digits before and after the point, and an
exponent.  It is kept apart from the value that it denotes, because how a numeral is read depends on
its digits and not only on their value.
-/

namespace TraceWeave

/-- How the sign of an exponent is written. -/
inductive ExponentSign where
  /-- Not at all. -/
  | absent
  /-- As a plus sign. -/
  | plus
  /-- As a minus sign. -/
  | minus
deriving DecidableEq, Repr

/-- The characters of an exponent's sign. -/
def ExponentSign.text : ExponentSign → List Char
  | .absent => []
  | .plus => ['+']
  | .minus => ['-']

/-- A number as it is written. -/
structure Numeral where
  /-- A minus sign stands first. -/
  negative : Bool := false
  /-- The digits before the point. -/
  whole : List Char
  /-- The digits after the point; none if there is no point. -/
  fraction : List Char := []
  /-- The exponent, if there is one: its sign, and its digits. -/
  exponent : Option (ExponentSign × List Char) := none
deriving DecidableEq, Repr

namespace Numeral

/-- The decimal digits of a whole number. -/
def digits (n : Nat) : List Char := Nat.toDigits 10 n

/-- The value of a digit. -/
def digitValue (c : Char) : Nat := c.toNat - '0'.toNat

/-- The number that digits write. -/
def valueOf (digits : List Char) : Nat := digits.foldl (fun n c => 10 * n + digitValue c) 0

/-- A whole number as it is written. -/
def ofInt (n : Int) : Numeral := { negative := n < 0, whole := digits n.natAbs }

/-- The characters of a numeral. -/
def text (n : Numeral) : List Char :=
  (if n.negative then ['-'] else []) ++ n.whole ++
    (if n.fraction.isEmpty then [] else '.' :: n.fraction) ++
    match n.exponent with
    | none => []
    | some (sign, digits) => 'e' :: sign.text ++ digits

/-- A numeral without a point and without an exponent. -/
def isWhole (n : Numeral) : Bool := n.fraction.isEmpty && n.exponent.isNone

/-- The whole number that a numeral denotes.  Minus zero is a float and no whole number. -/
def toInt? (n : Numeral) : Option Int :=
  if n.isWhole then
    match n.negative, valueOf n.whole with
    | false, v => some v
    | true, 0 => none
    | true, v => some (-v)
  else none

end Numeral

end TraceWeave
