import TraceWeave.Floating.Format
/-!
# Conversions and remainders of floats

Conversions between the two float widths and to and from whole numbers, each rounded once, and the
remainder of a truncated division, which is exact.  Equality of floats as values is equality of
their bit patterns: all values that are no number have one pattern.
-/

namespace TraceWeave.Floating

theorem float_eq_of_toBits {a b : Float} (h : a.toBits = b.toBits) : a = b := by
  cases a with
  | ofModel m =>
    cases b with
    | ofModel n =>
      obtain ⟨x, _⟩ := m
      obtain ⟨y, _⟩ := n
      have e : x = y := h
      subst e
      rfl

theorem float32_eq_of_toBits {a b : Float32} (h : a.toBits = b.toBits) : a = b := by
  cases a with
  | ofModel m =>
    cases b with
    | ofModel n =>
      obtain ⟨x, _⟩ := m
      obtain ⟨y, _⟩ := n
      have e : x = y := h
      subst e
      rfl

/-- Floats are compared as values by their bit patterns. -/
instance floatDecidableEq : DecidableEq Float := fun a b =>
  if h : a.toBits = b.toBits then isTrue (float_eq_of_toBits h)
  else isFalse fun e => h (congrArg Float.toBits e)

/-- Floats are compared as values by their bit patterns. -/
instance float32DecidableEq : DecidableEq Float32 := fun a b =>
  if h : a.toBits = b.toBits then isTrue (float32_eq_of_toBits h)
  else isFalse fun e => h (congrArg Float32.toBits e)

/-- The sign of a double. -/
def doubleNegative (x : Float) : Bool := double.isNegative x.toBits.toNat

/-- The size of a double. -/
def doubleSize (x : Float) : Size := double.decode x.toBits.toNat

/-- The sign of a single. -/
def singleNegative (x : Float32) : Bool := single.isNegative x.toBits.toNat

/-- The size of a single. -/
def singleSize (x : Float32) : Size := single.decode x.toBits.toNat

/-- The double nearest to a signed size. -/
def toDouble (negative : Bool) (size : Size) : Float :=
  Float.ofBits (UInt64.ofNat (double.encode negative size))

/-- The single nearest to a signed size. -/
def toSingle (negative : Bool) (size : Size) : Float32 :=
  Float32.ofBits (UInt32.ofNat (single.encode negative size))

/-- The double with the value of a single; every single is a double. -/
def widen (x : Float32) : Float := toDouble (singleNegative x) (singleSize x)

/-- The single nearest to a double; sizes beyond the singles become infinite. -/
def narrow (x : Float) : Float32 := toSingle (doubleNegative x) (doubleSize x)

/-- The double nearest to a whole number. -/
def doubleOfInt (n : Int) : Float := toDouble (n < 0) (.finite n.natAbs 0)

/-- The single nearest to a whole number. -/
def singleOfInt (n : Int) : Float32 := toSingle (n < 0) (.finite n.natAbs 0)

/-- The whole part of a size, without its sign; nothing for infinity. -/
def wholePart? : Size → Option Nat
  | .finite m q => some (m * twoTo q.toNat / twoTo (-q).toNat)
  | .infinite => none
  | .nan => some 0

/-- The whole number next to a signed size toward zero, held within the bounds of `Int64`; what is
no number counts as zero. -/
def truncate (negative : Bool) (size : Size) : Int64 :=
  let whole : Int := ((wholePart? size).getD UInt64.size : Nat)
  let signed := if negative then -whole else whole
  Int64.ofInt (max Int64.minValue.toInt (min Int64.maxValue.toInt signed))

/-- The remainder of the truncated quotient of two sizes.  It is exact, so no rounding is named. -/
def remainderSize : Size → Size → Size
  | .finite m q, .finite n r =>
    if n = 0 then .nan else
    let e := min q r
    .finite (m * twoTo (q - e).toNat % (n * twoTo (r - e).toNat)) e
  | .finite m q, .infinite => .finite m q
  | _, _ => .nan

/-- The remainder of a truncated division; it has the sign of the dividend. -/
def doubleRemainder (x y : Float) : Float :=
  toDouble (doubleNegative x) (remainderSize (doubleSize x) (doubleSize y))

/-- The remainder of a truncated division; it has the sign of the dividend. -/
def singleRemainder (x y : Float32) : Float32 :=
  toSingle (singleNegative x) (remainderSize (singleSize x) (singleSize y))

end TraceWeave.Floating
