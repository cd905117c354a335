import TraceWeave.Floating.Convert
import TraceWeave.Numeral.Basic
/-!
# Reading floats

A numeral is read as a float in two steps.  Its digits fill a significand of 64 bits; digits that no
longer fit only shift the exponent (before the point) or are dropped (after it).  The significand is
then scaled by one power of ten, rounding as it goes.  A result beyond the doubles is refused.
-/

namespace TraceWeave.Numeral

open Floating

/-- Appends digits to a significand while it stays below `2 ^ 64`; returns it with the digits that
are left. -/
def fill (significand : Nat) : List Char → Nat × List Char
  | [] => (significand, [])
  | c :: rest =>
    let longer := 10 * significand + digitValue c
    if longer < UInt64.size then fill longer rest else (significand, c :: rest)

/-- The double nearest to `10 ^ n`. -/
def powerOfTen (n : Nat) : Float := toDouble false (.finite (tenTo n) 0)

/-- Divides by `10 ^ n`, at most `10 ^ 308` at a time; `fuel` bounds the divisions. -/
def scaleDown : Nat → Float → Nat → Float
  | 0, x, _ => x
  | fuel + 1, x, n =>
    if n ≤ 308 then x / powerOfTen n
    else if x == 0 then x
    else scaleDown fuel (x / powerOfTen 308) (n - 308)

/-- Scales a non-negative double by `10 ^ e`; nothing if the result is beyond the doubles. -/
def scale? (x : Float) (e : Int) : Option Float :=
  if e < 0 then some (scaleDown (e.natAbs / 308 + 1) x e.natAbs)
  else if 308 < e then (if x == 0 then some x else none)
  else
    let scaled := x * powerOfTen e.natAbs
    if scaled.isInf then none else some scaled

/-- Gives a double the sign of a numeral. -/
def signed (n : Numeral) (x : Float) : Float := if n.negative then -x else x

/-- The greatest exponent that is taken as it stands. -/
def maxExponent : Nat := 2147483647

/-- The double that a numeral with a point, an exponent or a long whole part denotes. -/
def scaledDouble? (n : Numeral) : Option Float :=
  let (s, wholeLeft) := fill 0 n.whole
  let (significand, fractionLeft) := fill s n.fraction
  let shift : Int := wholeLeft.length - (n.fraction.length - fractionLeft.length : Nat)
  let start := doubleOfInt significand
  match n.exponent with
  | none => (scale? start shift).map n.signed
  | some (sign, digits) =>
    let exponent := valueOf digits
    if exponent ≤ maxExponent then
      (scale? start (if sign = .minus then shift - exponent else shift + exponent)).map n.signed
    else if significand ≠ 0 && sign ≠ .minus then none
    else some (n.signed 0)

/-- A whole number that is kept as such until its use decides on a width: it fits 64 bits, with a
sign if it is negative. -/
def machineInt? (n : Numeral) : Option Int :=
  n.toInt?.bind fun v => if Int64.minValue.toInt ≤ v && v < UInt64.size then some v else none

/-- The double that a numeral denotes, unless it is beyond the doubles. -/
def toDouble? (n : Numeral) : Option Float :=
  match n.machineInt? with
  | some v => some (doubleOfInt v)
  | none => n.scaledDouble?

/-- The single that a numeral denotes: a double beyond the singles becomes infinite. -/
def toSingle? (n : Numeral) : Option Float32 :=
  match n.machineInt? with
  | some v => some (singleOfInt v)
  | none => n.scaledDouble?.map narrow

end TraceWeave.Numeral
