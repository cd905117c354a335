import Mathlib.Data.Int.Bitwise
import TraceWeave.Value.Operator

/-!
# Operators on whole numbers

Two's complement, said on the integers.  An operand stands for an integer (`Whole.toInt`), an
operator computes with the integers of its operands, and the result is the operand of 32 or of 64
bits that its integer wraps to (`Whole.wrapped`).  `Whole.twosComplement` says this of every
operator.

The operators themselves compute on 64 bits, or cut both operands off to 32 first, or the result.
So the proofs go through the 64-bit number of an operand, which is its integer exactly
(`Whole.toInt64_number`).  Each family of operators has its counterpart on the integers
(`Whole.computes`, `Whole.combines`, `Whole.shifts`, `Whole.compares`).
-/

namespace TraceWeave

/-- An operand that is a whole number. -/
inductive Whole where
  /-- A number of 32 bits. -/
  | int (n : Int32)
  /-- A number of 64 bits. -/
  | long (n : Int64)
  /-- A character, which counts as the number of its code point. -/
  | char (c : Char)

namespace Whole

/-- The operand as a value. -/
def value : Whole → Value
  | .int n => .int n
  | .long n => .long n
  | .char c => .char c

/-- The integer that the operand stands for. -/
def toInt : Whole → Int
  | .int n => n.toInt
  | .long n => n.toInt
  | .char c => c.toNat

/-- Whether the operand has 64 bits. -/
def isLong : Whole → Bool
  | .long _ => true
  | .int _ | .char _ => false

/-- An integer as a number of 64 or of 32 bits; what does not fit is cut off. -/
def wrapped (isLong : Bool) (n : Int) : Whole :=
  if isLong then .long (.ofInt n) else .int (.ofInt n)

/-- Whether two operands are computed with on 64 bits. -/
def widens (a b : Whole) : Bool := a.isLong || b.isLong

/-- The number of bits of an operand. -/
def width (a : Whole) : Nat := if a.isLong then 64 else 32

/-- The distance by which the first operand is shifted: the second one, as far as it counts for the
width of the first. -/
def distance (a b : Whole) : Nat := (b.toInt % a.width).toNat

/-- The operand as a number. -/
def number : Whole → Number
  | .int n => .int n
  | .long n => .long n
  | .char c => .int (.ofNat c.toNat)

/-! ## Integers of operands -/

variable (a b : Whole)

@[simp] theorem number?_value : a.value.number? = some a.number := by cases a <;> rfl

theorem numbers_value (op : BinaryOp) :
    Value.numbers op a.value b.value = .ok (a.number, b.number) := by
  simp only [Value.numbers, number?_value]

theorem max_rank_number : max a.number.rank b.number.rank = if a.widens b then 1 else 0 := by
  cases a <;> cases b <;> rfl

theorem toInt_ofNat_char (c : Char) : (Int32.ofNat c.toNat).toInt = c.toNat := by
  have hlt : c.toNat < 1114112 := by
    have hvalid : c.toNat.isValidChar := c.valid
    rw [Nat.isValidChar] at hvalid
    omega
  rw [← Int32.ofInt_eq_ofNat, Int32.toInt_ofInt_of_le] <;> omega

theorem toInt_toInt64_number : a.number.toInt64.toInt = a.toInt := by
  cases a with
  | int n => exact n.toInt_toInt64
  | long n => rfl
  | char c => exact (Int32.toInt_toInt64 _).trans (toInt_ofNat_char c)

/-- As a number of 64 bits, an operand is its integer. -/
theorem toInt64_number : a.number.toInt64 = .ofInt a.toInt := by
  rw [← toInt_toInt64_number, Int64.ofInt_toInt]

variable {a} in
/-- The integer of a narrow operand has 32 bits. -/
theorem exists_toInt_eq_of_isLong_eq_false (h : a.isLong = false) :
    ∃ n : Int32, n.toInt = a.toInt := by
  cases a with
  | int n => exact ⟨n, rfl⟩
  | long n => cases h
  | char c => exact ⟨_, toInt_ofNat_char c⟩

/-- The integer of an operand has 64 bits. -/
theorem exists_toInt_eq : ∃ n : Int64, n.toInt = a.toInt := ⟨_, a.toInt_toInt64_number⟩

/-! ## Wrapping -/

theorem wrapped_toInt_add (isLong : Bool) (m n : Int) :
    wrapped isLong ((wrapped isLong m).toInt + (wrapped isLong n).toInt) =
      wrapped isLong (m + n) := by
  cases isLong with
  | false =>
    change int (.ofInt ((Int32.ofInt m).toInt + (Int32.ofInt n).toInt)) = int (.ofInt (m + n))
    rw [Int32.ofInt_add, Int32.ofInt_toInt, Int32.ofInt_toInt, Int32.ofInt_add]
  | true =>
    change long (.ofInt ((Int64.ofInt m).toInt + (Int64.ofInt n).toInt)) = long (.ofInt (m + n))
    rw [Int64.ofInt_add, Int64.ofInt_toInt, Int64.ofInt_toInt, Int64.ofInt_add]

theorem wrapped_toInt_mul (isLong : Bool) (m n : Int) :
    wrapped isLong ((wrapped isLong m).toInt * n) = wrapped isLong (m * n) := by
  cases isLong with
  | false =>
    change int (.ofInt ((Int32.ofInt m).toInt * n)) = int (.ofInt (m * n))
    rw [Int32.ofInt_mul, Int32.ofInt_toInt, Int32.ofInt_mul]
  | true =>
    change long (.ofInt ((Int64.ofInt m).toInt * n)) = long (.ofInt (m * n))
    rw [Int64.ofInt_mul, Int64.ofInt_toInt, Int64.ofInt_mul]

/-- What is cut off is a multiple of the number of values of the width. -/
theorem toInt_wrapped (isLong : Bool) (n : Int) :
    (wrapped isLong n).toInt = n.bmod (2 ^ (wrapped isLong n).width) := by
  cases isLong with
  | false => exact Int32.toInt_ofInt
  | true => exact Int64.toInt_ofInt

@[simp] theorem isLong_wrapped (isLong : Bool) (n : Int) : (wrapped isLong n).isLong = isLong := by
  cases isLong <;> rfl

theorem value_wrapped (isLong : Bool) (n : Int) :
    (wrapped isLong n).value = if isLong then .long (.ofInt n) else .int (.ofInt n) := by
  cases isLong <;> rfl

/-! ## Sums, products and quotients -/

/-- The arithmetic operators on integers; division truncates towards zero. -/
def computes : BinaryOp → Int → Int → Int
  | .add, m, n => m + n
  | .sub, m, n => m - n
  | .mul, m, n => m * n
  | .div, m, n => m.tdiv n
  | _, m, n => m.tmod n

theorem intArithmetic_eq (op : BinaryOp) (m n : Int32) :
    Value.intArithmetic op m n = .ofInt (computes op m.toInt n.toInt) := by
  have hdiv := Int32.ofInt_tdiv m.minValue_le_toInt m.toInt_le n.minValue_le_toInt n.toInt_le
  have hrem := Int32.ofInt_tmod m.minValue_le_toInt m.toInt_le n.minValue_le_toInt n.toInt_le
  cases op <;>
    simp only [Value.intArithmetic, computes, Int32.ofInt_add, Int32.ofInt_sub, Int32.ofInt_mul,
      hdiv, hrem, Int32.ofInt_toInt]

theorem longArithmetic_eq (op : BinaryOp) (m n : Int64) :
    Value.longArithmetic op m n = .ofInt (computes op m.toInt n.toInt) := by
  have hdiv := Int64.ofInt_tdiv m.minValue_le_toInt m.toInt_le n.minValue_le_toInt n.toInt_le
  have hrem := Int64.ofInt_tmod m.minValue_le_toInt m.toInt_le n.minValue_le_toInt n.toInt_le
  cases op <;>
    simp only [Value.longArithmetic, computes, Int64.ofInt_add, Int64.ofInt_sub, Int64.ofInt_mul,
      hdiv, hrem, Int64.ofInt_toInt]

theorem ofInt_toInt_eq_zero : (Int64.ofInt b.toInt == 0) = decide (b.toInt = 0) := by
  obtain ⟨n, hn⟩ := b.exists_toInt_eq
  rw [← hn, Int64.ofInt_toInt, Bool.eq_iff_iff, beq_iff_eq, decide_eq_true_iff, ← Int64.toInt_inj]
  rfl

theorem isLong_of_widens_eq_false {a b : Whole} (h : a.widens b = false) :
    a.isLong = false ∧ b.isLong = false := by
  simpa [widens] using h

/-- Arithmetic on whole numbers is arithmetic on integers, cut off at the wider width. -/
theorem arithmetic_value (op : BinaryOp) : Value.arithmetic op a.value b.value =
    if (op == .div || op == .rem) && decide (b.toInt = 0) then .error .divisionByZero
    else .ok (wrapped (a.widens b) (computes op a.toInt b.toInt)).value := by
  simp only [Value.arithmetic, numbers_value, bind, Except.bind, max_rank_number, toInt64_number,
    ofInt_toInt_eq_zero, value_wrapped]
  cases h : a.widens b with
  | false =>
    obtain ⟨hleft, hright⟩ := isLong_of_widens_eq_false h
    obtain ⟨m, hm⟩ := exists_toInt_eq_of_isLong_eq_false hleft
    obtain ⟨n, hn⟩ := exists_toInt_eq_of_isLong_eq_false hright
    simp only [Bool.false_eq_true, if_false, Int64.toInt32_ofInt, ← hm, ← hn, Int32.ofInt_toInt,
      intArithmetic_eq]
    split <;> rfl
  | true =>
    obtain ⟨m, hm⟩ := a.exists_toInt_eq
    obtain ⟨n, hn⟩ := b.exists_toInt_eq
    simp only [if_true, ← hm, ← hn, Int64.ofInt_toInt, longArithmetic_eq]
    split <;> rfl

variable {a b} in
theorem arithmetic_of_defined {op : BinaryOp} (h : op = .div ∨ op = .rem → b.toInt ≠ 0) :
    Value.arithmetic op a.value b.value =
      .ok (wrapped (a.widens b) (computes op a.toInt b.toInt)).value := by
  rw [arithmetic_value, if_neg (by simpa using h)]

/-- A quotient times the divisor, plus the remainder, is the dividend again. -/
theorem recombined (h : b.toInt ≠ 0) :
    (do
      let q ← Value.binary .div a.value b.value
      let r ← Value.binary .rem a.value b.value
      let p ← Value.binary .mul q b.value
      Value.binary .add p r) = .ok (wrapped (a.widens b) a.toInt).value := by
  have hwide (n : Int) : (wrapped (a.widens b) n).widens b = a.widens b := by
    rw [widens, isLong_wrapped, widens, Bool.or_assoc, Bool.or_self]
  have hboth (m n : Int) : (wrapped (a.widens b) m).widens (wrapped (a.widens b) n) =
      a.widens b := by
    rw [widens, isLong_wrapped, isLong_wrapped, Bool.or_self]
  have hdiv : Value.binary .div a.value b.value =
      .ok (wrapped (a.widens b) (a.toInt.tdiv b.toInt)).value := arithmetic_of_defined fun _ => h
  have hrem : Value.binary .rem a.value b.value =
      .ok (wrapped (a.widens b) (a.toInt.tmod b.toInt)).value := arithmetic_of_defined fun _ => h
  have hmul (a : Whole) : Value.binary .mul a.value b.value =
      .ok (wrapped (a.widens b) (a.toInt * b.toInt)).value := arithmetic_of_defined (by simp)
  have hadd (a b : Whole) : Value.binary .add a.value b.value =
      .ok (wrapped (a.widens b) (a.toInt + b.toInt)).value := arithmetic_of_defined (by simp)
  rw [hdiv, hrem]
  change (Value.binary .mul _ _ >>= fun p => Value.binary .add p _) = _
  rw [hmul, hwide, wrapped_toInt_mul]
  change Value.binary .add _ _ = _
  rw [hadd, hboth, wrapped_toInt_add, Int.mul_comm, Int.mul_tdiv_add_tmod]

/-! ## Bits -/

theorem getLsbD_ofInt (w : Nat) (n : Int) (i : Nat) :
    (BitVec.ofInt w n).getLsbD i = (decide (i < w) && n.testBit i) := by
  cases n with
  | ofNat n => simp [BitVec.getLsbD_ofNat, Int.testBit]
  | negSucc n =>
    rw [BitVec.ofInt_negSucc_eq_not_ofNat, BitVec.getLsbD_not, BitVec.getLsbD_ofNat, Int.testBit]
    by_cases h : i < w <;> simp [h]

theorem ofInt_land (m n : Int) : Int64.ofInt (Int.land m n) = .ofInt m &&& .ofInt n := by
  rw [← Int64.toBitVec_inj, Int64.toBitVec_and]
  refine BitVec.eq_of_getLsbD_eq fun i hi => ?_
  simp only [Int64.toBitVec_ofInt, getLsbD_ofInt, BitVec.getLsbD_and, Int.testBit_land, hi,
    decide_true, Bool.true_and]

theorem ofInt_lor (m n : Int) : Int64.ofInt (Int.lor m n) = .ofInt m ||| .ofInt n := by
  rw [← Int64.toBitVec_inj, Int64.toBitVec_or]
  refine BitVec.eq_of_getLsbD_eq fun i hi => ?_
  simp only [Int64.toBitVec_ofInt, getLsbD_ofInt, BitVec.getLsbD_or, Int.testBit_lor, hi,
    decide_true, Bool.true_and]

theorem ofInt_xor (m n : Int) : Int64.ofInt (Int.xor m n) = .ofInt m ^^^ .ofInt n := by
  rw [← Int64.toBitVec_inj, Int64.toBitVec_xor]
  refine BitVec.eq_of_getLsbD_eq fun i hi => ?_
  simp only [Int64.toBitVec_ofInt, getLsbD_ofInt, BitVec.getLsbD_xor, Int.testBit_lxor, hi,
    decide_true, Bool.true_and]

/-- The operators that work bit by bit, on integers. -/
def combines : BinaryOp → Int → Int → Int
  | .and => Int.land
  | .or => Int.lor
  | _ => Int.xor

theorem bits_eq (op : BinaryOp) (m n : Int) :
    Value.bits op (.ofInt m) (.ofInt n) = .ofInt (combines op m n) := by
  cases op <;> simp only [Value.bits, combines, ofInt_land, ofInt_lor, ofInt_xor]

theorem bitwise_value (op : BinaryOp) : Value.bitwise op a.value b.value =
    .ok (wrapped (a.widens b) (combines op a.toInt b.toInt)).value := by
  have hnumbers : Value.bitwise op a.value b.value =
      if a.widens b then .ok (.long (Value.bits op a.number.toInt64 b.number.toInt64))
      else .ok (.int (Value.bits op a.number.toInt64 b.number.toInt64).toInt32) := by
    cases a <;> cases b <;> rfl
  rw [hnumbers, toInt64_number, toInt64_number, bits_eq, value_wrapped, Int64.toInt32_ofInt]
  split <;> rfl

/-! ## Shifts -/

/-- The shifts of an integer of some width.  Without its sign, it is taken as what its bits say. -/
def shifts (w : Nat) : BinaryOp → Int → Nat → Int
  | .shl, n, k => n * 2 ^ k
  | .shr, n, k => n / 2 ^ k
  | _, n, k => n % 2 ^ w / 2 ^ k

section

variable {w : Nat} (x : BitVec w) (k : Nat)

theorem toInt_emod_two_pow : x.toInt % 2 ^ w = x.toNat := by
  rw [BitVec.toInt_eq_toNat_bmod]
  have hmod := Int.bmod_emod (x := (x.toNat : Int)) (m := 2 ^ w)
  push_cast at hmod ⊢
  rw [hmod]
  exact Int.emod_eq_of_lt (Int.natCast_nonneg _) (by exact_mod_cast x.isLt)

theorem ofInt_toInt_mul_two_pow : BitVec.ofInt w (x.toInt * 2 ^ k) = x <<< k := by
  refine BitVec.eq_of_toInt_eq ?_
  rw [BitVec.toInt_ofInt, BitVec.toInt_shiftLeft, BitVec.toInt_eq_toNat_bmod, Int.bmod_mul_bmod,
    Nat.shiftLeft_eq]
  push_cast
  rfl

theorem ofInt_toInt_div_two_pow : BitVec.ofInt w (x.toInt / 2 ^ k) = x.sshiftRight k := by
  have h : (x.sshiftRight k).toInt = x.toInt / 2 ^ k := by
    rw [BitVec.toInt_sshiftRight, Int.shiftRight_eq_div_pow]
    push_cast
    rfl
  rw [← h, BitVec.ofInt_toInt]

theorem ofInt_toInt_emod_div_two_pow : BitVec.ofInt w (x.toInt % 2 ^ w / 2 ^ k) = x >>> k := by
  refine BitVec.eq_of_toNat_eq ?_
  have hlt : x.toNat / 2 ^ k < 2 ^ w := (Nat.div_le_self _ _).trans_lt x.isLt
  rw [toInt_emod_two_pow, BitVec.toNat_ushiftRight, Nat.shiftRight_eq_div_pow, ← Nat.cast_two,
    ← Nat.cast_pow, ← Int.natCast_ediv, BitVec.ofInt_natCast, BitVec.toNat_ofNat,
    Nat.mod_eq_of_lt hlt]

variable {x k} in
theorem toNat_of_toInt (h : x.toInt = k) : x.toNat = k := by
  have hlt := x.isLt
  rw [BitVec.toInt_eq_toNat_cond] at h
  split at h <;> omega

variable {k} in
/-- The shifts of bits by a distance that is less than some bound. -/
theorem shifts_eq {d m : BitVec w} (hd : d.toInt = k) (hk : k < m.toInt) :
    x <<< (d.smod m) = BitVec.ofInt w (shifts w .shl x.toInt k) ∧
      x.sshiftRight (d.smod m).toNat = BitVec.ofInt w (shifts w .shr x.toInt k) ∧
      x >>> (d % m) = BitVec.ofInt w (shifts w .ushr x.toInt k) := by
  obtain ⟨n, hn⟩ := Int.eq_ofNat_of_zero_le (Int.le_trans (Int.natCast_nonneg k) (Int.le_of_lt hk))
  have hsmod : (d.smod m).toNat = k := by
    refine toNat_of_toInt ?_
    rw [BitVec.toInt_smod, hd, Int.fmod_eq_emod_of_nonneg _ (by omega),
      Int.emod_eq_of_lt (by omega) hk]
  have humod : (d % m).toNat = k := by
    rw [BitVec.toNat_umod, toNat_of_toInt hd, toNat_of_toInt hn, Nat.mod_eq_of_lt (by omega)]
  refine ⟨?_, ?_, ?_⟩
  · rw [BitVec.shiftLeft_eq', hsmod]
    exact (ofInt_toInt_mul_two_pow x k).symm
  · rw [hsmod]
    exact (ofInt_toInt_div_two_pow x k).symm
  · rw [BitVec.ushiftRight_eq', humod]
    exact (ofInt_toInt_emod_div_two_pow x k).symm

end

/-- The low bits of a distance. -/
theorem toInt_and_low {k : Nat} (hk : k < 63) (d : BitVec 64) :
    (d &&& BitVec.ofNat 64 (2 ^ k - 1)).toInt = d.toInt % 2 ^ k := by
  have hle : 2 ^ k ≤ 2 ^ 62 := Nat.pow_le_pow_right (by decide) (by omega)
  have hlow : (d &&& BitVec.ofNat 64 (2 ^ k - 1)).toNat = d.toNat % 2 ^ k := by
    rw [BitVec.toNat_and, BitVec.toNat_ofNat, Nat.mod_eq_of_lt (by omega),
      Nat.and_two_pow_sub_one_eq_mod]
  have hlt := Nat.mod_lt d.toNat (Nat.two_pow_pos k)
  rw [BitVec.toInt_eq_toNat_of_lt (by omega), hlow, Int.natCast_emod, ← toInt_emod_two_pow]
  have hdvd : (2 : Int) ^ k ∣ 2 ^ 64 := pow_dvd_pow 2 (by omega)
  rw [Nat.cast_pow, Nat.cast_two, Int.emod_emod_of_dvd _ hdvd]

theorem toInt_and_31 (d : Int64) : (d &&& 31).toInt32.toInt = d.toInt % 32 := by
  have h : (d &&& 31).toInt = d.toInt % 32 := toInt_and_low (k := 5) (by decide) d.toBitVec
  rw [Int64.toInt_toInt32, h]
  exact Int.bmod_eq_of_le (by omega) (by omega)

theorem toInt_and_63 (d : Int64) : (d &&& 63).toInt = d.toInt % 64 :=
  toInt_and_low (k := 6) (by decide) d.toBitVec

/-- 32 bits are shifted by the distance that the low five bits say. -/
theorem shiftInt_eq (op : BinaryOp) (n : Int32) {d : Int64} {k : Nat} (hk : d.toInt % 32 = k) :
    Value.shiftInt op n d = .ofInt (shifts 32 op n.toInt k) := by
  have hlt : (k : Int) < (32 : BitVec 32).toInt := by
    change (k : Int) < 32
    omega
  obtain ⟨hshl, hshr, hushr⟩ := shifts_eq n.toBitVec ((toInt_and_31 d).trans hk) hlt
  rw [← Int32.toBitVec_inj, Int32.toBitVec_ofInt]
  cases op with
  | shl => exact hshl
  | shr => exact hshr
  | _ => exact hushr

/-- 64 bits are shifted by the distance that the low six bits say. -/
theorem shiftLong_eq (op : BinaryOp) (n : Int64) {d : Int64} {k : Nat} (hk : d.toInt % 64 = k) :
    Value.shiftLong op n d = .ofInt (shifts 64 op n.toInt k) := by
  have hlt : (k : Int) < (64 : BitVec 64).toInt := by
    change (k : Int) < 64
    omega
  obtain ⟨hshl, hshr, hushr⟩ := shifts_eq n.toBitVec ((toInt_and_63 d).trans hk) hlt
  rw [← Int64.toBitVec_inj, Int64.toBitVec_ofInt]
  cases op with
  | shl => exact hshl
  | shr => exact hshr
  | _ => exact hushr

theorem emod_width : b.toInt % a.width = a.distance b := by
  have hpos : (0 : Int) < a.width := by
    rw [width]
    split <;> decide
  exact (Int.toNat_of_nonneg (Int.emod_nonneg _ (Int.ne_of_gt hpos))).symm

variable {a b} in
theorem shift_of_int {n : Int32} (h : a.number = .int n) (op : BinaryOp) :
    Value.shift op a.value b.value = .ok (.int (Value.shiftInt op n b.number.toInt64)) := by
  rw [Value.shift, numbers_value, h]
  rfl

variable {a b} in
theorem shift_of_long {n : Int64} (h : a.number = .long n) (op : BinaryOp) :
    Value.shift op a.value b.value = .ok (.long (Value.shiftLong op n b.number.toInt64)) := by
  rw [Value.shift, numbers_value, h]
  rfl

/-- A shift is one of the integer of the left operand, which alone decides on the width. -/
theorem shift_value (op : BinaryOp) : Value.shift op a.value b.value =
    .ok (wrapped a.isLong (shifts a.width op a.toInt (a.distance b))).value := by
  have hdistance : b.number.toInt64.toInt % a.width = a.distance b := by
    rw [toInt_toInt64_number, emod_width]
  cases a with
  | int n =>
    rw [shift_of_int rfl, shiftInt_eq op n hdistance]
    rfl
  | long n =>
    rw [shift_of_long rfl, shiftLong_eq op n hdistance]
    rfl
  | char c =>
    rw [shift_of_int rfl, shiftInt_eq op _ hdistance, toInt_ofNat_char]
    rfl

/-! ## Comparisons -/

theorem compare_ofInt : compare (Int64.ofInt a.toInt) (Int64.ofInt b.toInt) =
    compare a.toInt b.toInt := by
  obtain ⟨m, hm⟩ := a.exists_toInt_eq
  obtain ⟨n, hn⟩ := b.exists_toInt_eq
  rw [← hm, ← hn, Int64.ofInt_toInt, Int64.ofInt_toInt]
  change compareOfLessAndEq m n = compareOfLessAndEq m.toInt n.toInt
  simp only [compareOfLessAndEq, Int64.lt_iff_toInt_lt, Int64.toInt_inj]

theorem relational_value (op : BinaryOp) : Value.relational op a.value b.value =
    .ok (Value.satisfies op (some (compare a.toInt b.toInt))) := by
  have hrank : ¬ 2 ≤ max a.number.rank b.number.rank := by
    rw [max_rank_number]
    split <;> decide
  simp only [Value.relational, number?_value, Value.compareNumbers, if_neg hrank, toInt64_number,
    compare_ofInt]

theorem threeWay_cmp_value : Value.threeWay .cmp a.value b.value =
    .ok (.int (Value.orderNumber .cmp (some (compare a.toInt b.toInt)))) := by
  rw [← compare_ofInt, ← toInt64_number, ← toInt64_number, Value.threeWay, numbers_value]
  rfl

/-- The three ways in which two integers can compare. -/
theorem compare_cases (m n : Int) : m < n ∧ compare m n = .lt ∨ m = n ∧ compare m n = .eq ∨
    n < m ∧ compare m n = .gt := by
  change m < n ∧ compareOfLessAndEq m n = .lt ∨ m = n ∧ compareOfLessAndEq m n = .eq ∨
    n < m ∧ compareOfLessAndEq m n = .gt
  rw [compareOfLessAndEq]
  obtain h | h | h := Int.lt_trichotomy m n
  · exact .inl ⟨h, if_pos h⟩
  · exact .inr (.inl ⟨h, by rw [if_neg (by omega), if_pos h]⟩)
  · exact .inr (.inr ⟨h, by rw [if_neg (by omega), if_neg (by omega)]⟩)

/-- Whether two integers compare as an operator asks. -/
def compares : BinaryOp → Int → Int → Bool
  | .lt, m, n => m < n
  | .le, m, n => m ≤ n
  | .gt, m, n => n < m
  | .ge, m, n => n ≤ m
  | .eq, m, n => m = n
  | _, m, n => m ≠ n

theorem satisfies_compare (op : BinaryOp) (m n : Int) :
    Value.satisfies op (some (compare m n)) = compares op m n := by
  obtain ⟨h, horder⟩ | ⟨h, horder⟩ | ⟨h, horder⟩ := compare_cases m n <;> rw [horder]
  · have hle := Int.le_of_lt h
    cases op <;> simp [Value.satisfies, compares, h, hle, Int.ne_of_lt h]
  · cases op <;> simp [Value.satisfies, compares, h]
  · have hle := Int.le_of_lt h
    cases op <;> simp [Value.satisfies, compares, h, hle, Int.ne_of_gt h]

theorem orderNumber_compare (m n : Int) :
    Value.orderNumber .cmp (some (compare m n)) = .ofInt (m - n).sign := by
  obtain ⟨h, horder⟩ | ⟨h, horder⟩ | ⟨h, horder⟩ := compare_cases m n <;> rw [horder]
  · rw [Int.sign_eq_neg_one_of_neg (by omega)]; rfl
  · rw [h, Int.sub_self]; rfl
  · rw [Int.sign_eq_one_of_pos (by omega)]; rfl

/-- A comparison is one of the integers. -/
theorem relational_eq (op : BinaryOp) : (Value.relational op a.value b.value).map Value.bool =
    .ok (.bool (compares op a.toInt b.toInt)) := by
  rw [relational_value, satisfies_compare]
  rfl

theorem threeWay_eq : Value.threeWay .cmp a.value b.value =
    .ok (.int (.ofInt (a.toInt - b.toInt).sign)) := by
  rw [threeWay_cmp_value, orderNumber_compare]

/-! ## All of them -/

/-- What the binary operators compute from two whole numbers. -/
structure TwosComplement (a b : Whole) : Prop where
  /-- Sums, differences and products are cut off at the width of the wider operand. -/
  add : Value.binary .add a.value b.value = .ok (wrapped (a.widens b) (a.toInt + b.toInt)).value
  sub : Value.binary .sub a.value b.value = .ok (wrapped (a.widens b) (a.toInt - b.toInt)).value
  mul : Value.binary .mul a.value b.value = .ok (wrapped (a.widens b) (a.toInt * b.toInt)).value
  /-- So is what works bit by bit. -/
  and : Value.binary .and a.value b.value =
    .ok (wrapped (a.widens b) (Int.land a.toInt b.toInt)).value
  or : Value.binary .or a.value b.value =
    .ok (wrapped (a.widens b) (Int.lor a.toInt b.toInt)).value
  xor : Value.binary .xor a.value b.value =
    .ok (wrapped (a.widens b) (Int.xor a.toInt b.toInt)).value
  /-- Division truncates towards zero and fails on zero alone. -/
  div : Value.binary .div a.value b.value =
    if b.toInt = 0 then .error .divisionByZero
    else .ok (wrapped (a.widens b) (a.toInt.tdiv b.toInt)).value
  rem : Value.binary .rem a.value b.value =
    if b.toInt = 0 then .error .divisionByZero
    else .ok (wrapped (a.widens b) (a.toInt.tmod b.toInt)).value
  /-- Quotient and remainder give the dividend back. -/
  recombined : b.toInt ≠ 0 →
    (do
      let q ← Value.binary .div a.value b.value
      let r ← Value.binary .rem a.value b.value
      let p ← Value.binary .mul q b.value
      Value.binary .add p r) = .ok (wrapped (a.widens b) a.toInt).value
  /-- A shift has the width of its left operand, and of the right one it reads the low bits. -/
  shl : Value.binary .shl a.value b.value =
    .ok (wrapped a.isLong (a.toInt * 2 ^ a.distance b)).value
  shr : Value.binary .shr a.value b.value =
    .ok (wrapped a.isLong (a.toInt / 2 ^ a.distance b)).value
  ushr : Value.binary .ushr a.value b.value =
    .ok (wrapped a.isLong (a.toInt % 2 ^ a.width / 2 ^ a.distance b)).value
  /-- All comparisons are of the integers. -/
  lt : Value.binary .lt a.value b.value = .ok (.bool (a.toInt < b.toInt))
  le : Value.binary .le a.value b.value = .ok (.bool (a.toInt ≤ b.toInt))
  gt : Value.binary .gt a.value b.value = .ok (.bool (b.toInt < a.toInt))
  ge : Value.binary .ge a.value b.value = .ok (.bool (b.toInt ≤ a.toInt))
  eq : Value.binary .eq a.value b.value = .ok (.bool (a.toInt = b.toInt))
  ne : Value.binary .ne a.value b.value = .ok (.bool (a.toInt ≠ b.toInt))
  cmp : Value.binary .cmp a.value b.value = .ok (.int (.ofInt (a.toInt - b.toInt).sign))

/-- The operators on whole numbers follow two's complement. -/
theorem twosComplement (a b : Whole) : TwosComplement a b where
  add := arithmetic_of_defined (by simp)
  sub := arithmetic_of_defined (by simp)
  mul := arithmetic_of_defined (by simp)
  and := bitwise_value a b .and
  or := bitwise_value a b .or
  xor := bitwise_value a b .xor
  div := (arithmetic_value a b .div).trans (if_congr (by simp) rfl rfl)
  rem := (arithmetic_value a b .rem).trans (if_congr (by simp) rfl rfl)
  recombined := recombined a b
  shl := shift_value a b .shl
  shr := shift_value a b .shr
  ushr := shift_value a b .ushr
  lt := relational_eq a b .lt
  le := relational_eq a b .le
  gt := relational_eq a b .gt
  ge := relational_eq a b .ge
  eq := relational_eq a b .eq
  ne := relational_eq a b .ne
  cmp := threeWay_eq a b

example : Value.binary .div (.int Int32.minValue) (.int (-1)) = .ok (.int Int32.minValue) := by
  decide

end Whole

end TraceWeave
