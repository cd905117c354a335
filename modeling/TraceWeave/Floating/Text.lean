import TraceWeave.Floating.Shortest
import TraceWeave.Numeral.Basic
/-!
# Floats as text

A finite float is written with the fewest digits that identify it, and always shows that it is a
float: with a point, or with an exponent.  A `Layout` says for which sizes the point stands in
place, which digits a tie leads to, and how exponents are written.
-/

namespace TraceWeave.Floating

/-- How floats are written.  The point stands in place if its position (the exponent of the decimal
`0.d₁d₂…`) lies between `first` and `last`; other floats get an exponent. -/
structure Layout where
  /-- The least point position written in place. -/
  first : Int
  /-- The greatest point position written in place. -/
  last : Int
  /-- Which of two equally near decimals is taken. -/
  tie : Tie
  /-- The sign before an exponent that is not negative. -/
  sign : ExponentSign

/-- Values for people: in place from 0.0001 up to 10^16, the larger decimal on a tie, and no sign
before an exponent that is not negative. -/
def plainLayout : Layout := ⟨-3, 16, .up, .absent⟩

/-- The numeral of a decimal under a layout. -/
def Layout.numeral (layout : Layout) (negative : Bool) (d : Decimal) : Numeral :=
  let digits := Numeral.digits d.digits
  let point := d.exponent + digits.length
  if layout.first ≤ point && point ≤ layout.last then
    if point ≤ 0 then
      { negative, whole := ['0'], fraction := List.replicate (-point).toNat '0' ++ digits }
    else if digits.length ≤ point then
      { negative, whole := digits ++ List.replicate (point - digits.length).toNat '0',
        fraction := ['0'] }
    else
      { negative, whole := digits.take point.toNat, fraction := digits.drop point.toNat }
  else
    { negative, whole := digits.take 1, fraction := digits.drop 1,
      exponent := some (if point - 1 < 0 then .minus else layout.sign,
        Numeral.digits (point - 1).natAbs) }

/-- The numeral of a bit pattern under a layout; nothing for infinities and for what is no
number. -/
def BinaryFormat.numeral? (f : BinaryFormat) (layout : Layout) (bits : Nat) : Option Numeral :=
  match f.decode bits with
  | .finite 0 _ => some { negative := f.isNegative bits, whole := ['0'], fraction := ['0'] }
  | .finite m q => some (layout.numeral (f.isNegative bits) (f.shortest layout.tie m q))
  | .infinite => none
  | .nan => none

/-- The text of a bit pattern for people. -/
def BinaryFormat.text (f : BinaryFormat) (bits : Nat) : String :=
  match f.numeral? plainLayout bits, f.decode bits with
  | some n, _ => String.ofList n.text
  | none, .infinite => if f.isNegative bits then "-inf" else "inf"
  | none, _ => "NaN"

/-- The text of a double for people. -/
def doubleText (x : Float) : String := double.text x.toBits.toNat

/-- The text of a single for people. -/
def singleText (x : Float32) : String := single.text x.toBits.toNat

end TraceWeave.Floating
