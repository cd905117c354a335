/-!
# Binary floating-point formats

A finite float is a whole number times a power of two.  `BinaryFormat` names a format by its
precision, its least exponent and the width of its exponent field; `decode` takes a bit pattern
apart and `nearest` finds the bit pattern closest to `m * 2 ^ q`, with a tie going to the even
neighbour.
-/

namespace TraceWeave.Floating

/-- A power of two. -/
def twoTo (n : Nat) : Nat := Nat.pow 2 n

/-- A power of ten. -/
def tenTo (n : Nat) : Nat := Nat.pow 10 n

/-- A binary format: a significand of `precision` bits, the least exponent of its last bit, and the
width of the exponent field. -/
structure BinaryFormat where
  /-- The bits of a full significand, the implicit one included. -/
  precision : Nat
  /-- The exponent of the last bit of the smallest values. -/
  least : Int
  /-- The width of the exponent field. -/
  exponentWidth : Nat

/-- The format of `Float`. -/
def double : BinaryFormat := ⟨53, -1074, 11⟩

/-- The format of `Float32`. -/
def single : BinaryFormat := ⟨24, -149, 8⟩

/-- What a bit pattern stands for, its sign aside. -/
inductive Size where
  /-- The value `m * 2 ^ q`. -/
  | finite (m : Nat) (q : Int)
  /-- Infinity. -/
  | infinite
  /-- No number. -/
  | nan
deriving DecidableEq, Repr

namespace BinaryFormat

variable (f : BinaryFormat)

/-- The bits after the exponent field. -/
def fractionWidth : Nat := f.precision - 1

/-- The bit pattern of positive infinity. -/
def infinity : Nat := (twoTo f.exponentWidth - 1) <<< f.fractionWidth

/-- The weight of the sign bit. -/
def signBit : Nat := twoTo (f.exponentWidth + f.fractionWidth)

/-- The sign bit of a pattern. -/
def isNegative (bits : Nat) : Bool := f.signBit ≤ bits

/-- What a bit pattern stands for, its sign aside. -/
def decode (bits : Nat) : Size :=
  let magnitude := bits % f.signBit
  let fraction := magnitude % twoTo f.fractionWidth
  let exponent := magnitude >>> f.fractionWidth
  if magnitude = f.infinity then .infinite
  else if f.infinity < magnitude then .nan
  else if exponent = 0 then .finite fraction f.least
  else .finite (twoTo f.fractionWidth + fraction) (f.least + exponent - 1)

/-- The quotient of `m` by `2 ^ k`, to the nearest whole number and to the even one on a tie. -/
def shiftRight (m k : Nat) : Nat :=
  let quotient := m >>> k
  let rest := 2 * (m % twoTo k)
  if twoTo k < rest || (rest = twoTo k && quotient % 2 = 1) then quotient + 1 else quotient

/-- The bit pattern of the value nearest to `m * 2 ^ q`.  A significand that fills up counts on into
the exponent field, and past the largest exponent everything is infinite. -/
def nearest (m : Nat) (q : Int) : Nat :=
  if m = 0 then 0 else
  let exponent := max (q + (Nat.log2 m + 1) - f.precision) f.least
  let significand :=
    if exponent ≤ q then m <<< (q - exponent).toNat else shiftRight m (exponent - q).toNat
  min (((exponent - f.least).toNat <<< f.fractionWidth) + significand) f.infinity

/-- The bit pattern with the given sign. -/
def withSign (negative : Bool) (bits : Nat) : Nat :=
  if negative then f.signBit + bits else bits

/-- A bit pattern that is no number. -/
def nanBits : Nat := f.infinity + twoTo (f.fractionWidth - 1)

/-- The bit pattern of a sign and a size, rounded to the format. -/
def encode (negative : Bool) : Size → Nat
  | .finite m q => f.withSign negative (f.nearest m q)
  | .infinite => f.withSign negative f.infinity
  | .nan => f.nanBits

end BinaryFormat

end TraceWeave.Floating
