import TraceWeave.Floating.Format
/-!
# The fewest digits that identify a float

The reals that round to a float form an interval around it.  `shortest` finds the decimal with the
fewest digits in that interval and of two such decimals the nearer one; a `Tie` says which of two
equally near ones is taken.  All comparisons are exact, by cross-multiplying whole numbers.
-/

namespace TraceWeave.Floating

/-- The decimal `digits * 10 ^ exponent`. -/
structure Decimal where
  /-- The digits, as a whole number. -/
  digits : Nat
  /-- The power of ten by which the digits count. -/
  exponent : Int
deriving DecidableEq, Repr

/-- Which of two equally near decimals is taken. -/
inductive Tie where
  /-- The larger one. -/
  | up
  /-- The one with an even last digit. -/
  | even
deriving DecidableEq, Repr

/-- The digits that are taken of `below` and `below + 1`. -/
def Tie.pick (tie : Tie) (below : Nat) : Nat :=
  match tie with
  | .up => below + 1
  | .even => below + below % 2

/-- Compares `a * 10 ^ g` with `x * 2 ^ e`. -/
def compareScaled (a : Nat) (g : Int) (x : Nat) (e : Int) : Ordering :=
  compare (a * tenTo g.toNat * twoTo (-e).toNat) (x * twoTo e.toNat * tenTo (-g).toNat)

/-- Whether the decimal `a * 10 ^ g` rounds to `m * 2 ^ q`.  The gap below a power of two is half
the gap above it; the ends of the interval belong to it when `m` is even. -/
def BinaryFormat.readsBack (f : BinaryFormat) (m : Nat) (q : Int) (a : Nat) (g : Int) : Bool :=
  let narrow := m = twoTo f.fractionWidth && f.least < q
  let low := compareScaled a g (4 * m - (if narrow then 1 else 2)) (q - 2)
  let high := compareScaled a g (4 * m + 2) (q - 2)
  if m % 2 = 0 then low != .lt && high != .gt else low == .gt && high == .lt

/-- The least `k` with `m * 2 ^ q < 10 ^ k`, found near its estimate from the binary logarithm. -/
def decimalScale (m : Nat) (q : Int) : Int :=
  let estimate := Int.fdiv ((q + Nat.log2 m) * 30103) 100000
  let candidates := [estimate, estimate + 1, estimate + 2]
  (candidates.find? fun k => compareScaled 1 k m q == .gt).getD (estimate + 3)

/-- The best decimal on the grid `10 ^ g`: one of the two neighbours of `m * 2 ^ q` that reads
back, if there is one. -/
def BinaryFormat.onGrid? (f : BinaryFormat) (tie : Tie) (m : Nat) (q g : Int) : Option Nat :=
  let below := (m * twoTo q.toNat * tenTo (-g).toNat) / (tenTo g.toNat * twoTo (-q).toNat)
  match f.readsBack m q below g, f.readsBack m q (below + 1) g with
  | true, true =>
    -- the midpoint of the two neighbours decides
    match compareScaled (2 * below + 1) g (2 * m) q with
    | .gt => some below
    | .eq => some (tie.pick below)
    | .lt => some (below + 1)
  | true, false => some below
  | false, true => some (below + 1)
  | false, false => none

/-- The decimal without zeros at the end of its digits; `fuel` bounds their number. -/
def Decimal.strip : Nat → Decimal → Decimal
  | 0, d => d
  | fuel + 1, d =>
    if d.digits % 10 = 0 then strip fuel ⟨d.digits / 10, d.exponent + 1⟩ else d

/-- The decimal with the fewest digits that reads back as the positive value `m * 2 ^ q`.
Seventeen digits always suffice. -/
def BinaryFormat.shortest (f : BinaryFormat) (tie : Tie) (m : Nat) (q : Int) : Decimal :=
  let scale := decimalScale m q
  let tries := (List.range 17).map fun (n : Nat) => scale - (n + 1 : Nat)
  let found := tries.findSome? fun g => (f.onGrid? tie m q g).map fun a => (⟨a, g⟩ : Decimal)
  Decimal.strip 20 (found.getD ⟨m * twoTo q.toNat * Nat.pow 5 (-q).toNat, min q 0⟩)

end TraceWeave.Floating
