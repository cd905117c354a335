import TraceWeave.Floating.Convert
import TraceWeave.Proofs.Floating.Nearest

/-!
# Products of doubles

The product of two doubles is rounded once.  It is finite if its exact value lies below
`doubleLimit` (`isInf_mul`): dropping bits adds half a unit at most, and what is then still below
`2 ^ 1024` fits the exponent field.  For the doubles nearest to two whole numbers this asks that the
product of the numbers has room for the two roundings (`isInf_mul_nearest`).
-/

namespace TraceWeave.Floating

open Float.Model
open UnpackedFloat hiding pack unpack

/-! ## Dropping bits -/

theorem shift_succ (x : ExtendedMantissa) (n : Nat) :
    x >>> (n + 1) = (x >>> n).shiftRightOne := rfl

theorem mantissa_shift (x : ExtendedMantissa) (n : Nat) :
    (x >>> n).mantissa = x.mantissa / 2 ^ n := by
  induction n with
  | zero =>
    rw [pow_zero, Nat.div_one]
    rfl
  | succ n ih =>
    rw [shift_succ, ExtendedMantissa.shiftRightOne, ih, Nat.div_div_eq_div_mul, pow_succ]

theorem roundedMantissa_le (x : ExtendedMantissa) :
    x.roundedMantissa ≤ x.mantissa + if x.roundBit then 1 else 0 := by
  obtain ⟨m, round, sticky⟩ := x
  cases round <;> cases sticky <;>
    simp [ExtendedMantissa.roundedMantissa, ExtendedMantissa.accuracy,
      Accuracy.roundToNearestEven]
  omega

/-- Dropping bits adds half a unit at most. -/
theorem roundedMantissa_shift_le (m n : Nat) :
    2 ^ n * (2 * ((ExtendedMantissa.ofMantissaAndAccuracy m .exact) >>> n).roundedMantissa) ≤
      2 * m + 2 ^ n := by
  cases n with
  | zero =>
    change 1 * (2 * m) ≤ 2 * m + 1
    omega
  | succ n =>
    set x := ExtendedMantissa.ofMantissaAndAccuracy m .exact with hx
    have hm : (x >>> n).mantissa = m / 2 ^ n := mantissa_shift x n
    have h := roundedMantissa_le (x >>> (n + 1))
    rw [shift_succ] at h ⊢
    have htwice : 2 * (x >>> n).shiftRightOne.roundedMantissa ≤ m / 2 ^ n + 1 := by
      simp only [ExtendedMantissa.shiftRightOne, hm] at h ⊢
      split at h <;> simp_all <;> omega
    calc 2 ^ (n + 1) * (2 * (x >>> n).shiftRightOne.roundedMantissa)
        ≤ 2 ^ (n + 1) * (m / 2 ^ n + 1) := Nat.mul_le_mul_left _ htwice
      _ = 2 * (2 ^ n * (m / 2 ^ n)) + 2 ^ (n + 1) := by ring
      _ ≤ 2 * m + 2 ^ (n + 1) := by
        have := Nat.mul_div_le m (2 ^ n)
        omega

/-! ## Rounding -/

/-- The value becomes infinite when it is packed into a double. -/
def Overflows (u : UnpackedFloat) : Prop :=
  (UnpackedFloat.unpack Format.binary64 (UnpackedFloat.pack Format.binary64 u)).isInf = true

theorem isInf_unpack {b : BitVec Format.binary64.numBits} (h : unpackExponent b ≠ -1#_) :
    (UnpackedFloat.unpack Format.binary64 b).isInf ≠ true := by
  unfold UnpackedFloat.unpack
  dsimp only
  rw [if_neg h]
  by_cases hzero : unpackExponent b = 0#_
  · rw [if_pos hzero]
    by_cases hm : unpackMantissa b = 0#_
    · rw [dif_pos hm]
      exact Bool.false_ne_true
    · rw [dif_neg hm]
      exact Bool.false_ne_true
  · rw [if_neg hzero]
    exact Bool.false_ne_true

theorem not_overflows_zero (s : Sign) : ¬ Overflows (.zero s) := by
  refine isInf_unpack ?_
  unfold UnpackedFloat.pack packedZero
  rw [unpackExponent_packComponents]
  decide

/-- An exponent that fits is packed. -/
theorem not_overflows_finite {s : Sign} {m : Nat} {e : Int} (hm : 0 < m) (he : e ≤ 971) :
    ¬ Overflows (.finite s m e hm) := by
  refine isInf_unpack ?_
  have hbias : (Format.exponentBias Format.binary64 : Int) = 1023 := rfl
  have hfield : (e + 1023 + 52).toNat < 2047 := by omega
  have hvec : BitVec.ofNat 11 (e + 1023 + 52).toNat ≠ -1#_ := by
    intro h
    have hmod : (e + 1023 + 52).toNat % 2 ^ 11 = 2047 := congrArg BitVec.toNat h
    omega
  unfold UnpackedFloat.pack
  dsimp only
  rw [hbias, if_neg (by omega)]
  split
  · rwa [unpackExponent_packComponents]
  · rw [unpackExponent_packComponents]
    decide

theorem targetExponent_le {m : Nat} {e : Int} (h : m = 0 ∧ e ≤ 971 ∨ m.log2 + e < 1024) :
    Format.binary64.targetExponent (totalExponent m e) ≤ 971 := by
  have hbits : (Format.mantissaBits Format.binary64 : Int) = 53 := rfl
  have hleast : Format.minExponent Format.binary64 = -1074 := by decide
  rw [Format.targetExponent, totalExponent, hbits, hleast]
  rcases h with ⟨rfl, he⟩ | h
  · rw [Nat.log2_zero]
    omega
  · omega

/-- A value below the limit is still below `2 ^ 1024` when bits of it were dropped. -/
theorem rounded_lt {m n : Nat} {e : Int} (he : e + n ≤ 971) (h : (m : ℚ) * 2 ^ e < doubleLimit) :
    ((ExtendedMantissa.ofMantissaAndAccuracy m .exact >>> n).roundedMantissa : ℚ) * 2 ^ (e + n) <
      2 ^ (1024 : Int) := by
  have hle : (2 : ℚ) ^ n *
      (2 * (ExtendedMantissa.ofMantissaAndAccuracy m .exact >>> n).roundedMantissa) ≤
      2 * m + 2 ^ n := by
    exact_mod_cast roundedMantissa_shift_le m n
  have hunit : (2 : ℚ) ^ (e + n) ≤ 2 * 2 ^ (970 : Int) := by
    rw [← zpow_one_add₀ two_ne_zero]
    exact zpow_le_zpow_right₀ one_le_two he
  have hsplit : (2 : ℚ) ^ (e + n) = 2 ^ e * 2 ^ n := by
    rw [zpow_add₀ two_ne_zero, zpow_natCast]
  have hpos : (0 : ℚ) ≤ 2 ^ e := by positivity
  have hscaled := mul_le_mul_of_nonneg_left hle hpos
  rw [hsplit] at hunit ⊢
  rw [← doubleLimit_add]
  linarith

/-- Rounding a value below the limit does not make it infinite. -/
theorem not_overflows_round {s : Sign} {m : Nat} {e : Int} (hm : 0 < m) (he : e ≤ 971)
    (h : (m : ℚ) * 2 ^ e < doubleLimit) :
    ¬ Overflows (roundWithAccuracy Format.binary64 s m e .exact) := by
  set n := (Format.binary64.targetExponent (totalExponent m e) - e).toNat with hn
  set r := (ExtendedMantissa.ofMantissaAndAccuracy m .exact >>> n).roundedMantissa with hr
  have htarget : Format.binary64.targetExponent (totalExponent m e) ≤ 971 :=
    targetExponent_le (.inr (log2_add_lt hm.ne' (h.trans doubleLimit_lt)))
  have hshifted : e + n ≤ 971 := by omega
  -- Rounding may fill up the significand, and then bits are dropped once more.
  have htarget' : Format.binary64.targetExponent (totalExponent r (e + n)) ≤ 971 := by
    refine targetExponent_le ?_
    rcases eq_or_ne r 0 with hzero | hne
    · exact .inl ⟨hzero, hshifted⟩
    · exact .inr (log2_add_lt hne (rounded_lt hshifted h))
  unfold roundWithAccuracy
  dsimp only [shiftToTargetExponent, shiftToExponent]
  rw [← hn, ← hr]
  set k := (Format.binary64.targetExponent (totalExponent r (e + n)) - (e + n)).toNat with hk
  by_cases hzero : (ExtendedMantissa.ofMantissaAndAccuracy r .exact >>> k).mantissa = 0
  · rw [dif_pos hzero]
    exact not_overflows_zero s
  · rw [dif_neg hzero]
    exact not_overflows_finite _ (by omega)

/-- The product of two doubles is finite if its exact value lies below the limit. -/
theorem isInf_mul {x y : Float} {s t : Sign} {m n : Nat} {e f : Int} {hm : 0 < m} {hn : 0 < n}
    (hx : x.toModel.unpack = .finite s m e hm) (hy : y.toModel.unpack = .finite t n f hn)
    (he : e + f ≤ 971) (h : (m : ℚ) * 2 ^ e * (n * 2 ^ f) < doubleLimit) :
    (x * y).isInf = false := by
  have hvalue : ((m * n : Nat) : ℚ) * 2 ^ (e + f) < doubleLimit := by
    refine lt_of_eq_of_lt ?_ h
    rw [zpow_add₀ two_ne_zero, Nat.cast_mul]
    ring
  have hround := @not_overflows_round (s * t) (m * n) (e + f) (Nat.mul_pos hm hn) he hvalue
  have hmul : (x * y).isInf = true ↔
      Overflows (UnpackedFloat.mul Format.binary64 x.toModel.unpack y.toModel.unpack) := Iff.rfl
  rw [← Bool.not_eq_true, hmul, hx, hy]
  exact hround

/-! ## Bits of doubles -/

theorem unpack_normal {b : BitVec Format.binary64.numBits} {m field : Nat}
    (hfield : (unpackExponent b).toNat = field + 1) (hm : 2 ^ 52 + (unpackMantissa b).toNat = m)
    (h : field < 2046) :
    ∃ s hm, UnpackedFloat.unpack Format.binary64 b = .finite s m (field - 1074) hm := by
  have hbias : (Format.exponentBias Format.binary64 : Int) = 1023 := rfl
  have hones : unpackExponent b ≠ -1#_ := by
    intro heq
    have hmax : (-1#11).toNat = 2047 := rfl
    have := (hfield.symm.trans ((congrArg BitVec.toNat heq).trans hmax))
    omega
  have hzero : unpackExponent b ≠ 0#_ := by
    intro heq
    exact absurd (hfield.symm.trans (congrArg BitVec.toNat heq)) (Nat.succ_ne_zero _)
  have hmantissa : (1#1 ++ unpackMantissa b).toNat = m := by
    rw [BitVec.toNat_append, ← hm, ← Nat.shiftLeft_add_eq_or_of_lt (unpackMantissa b).isLt]
    rfl
  have hexponent : ((unpackExponent b).toNat : Int) - (1023 + (52 : Nat)) = field - 1074 := by
    omega
  unfold UnpackedFloat.unpack
  dsimp only
  rw [if_neg hones, if_neg hzero, hbias]
  obtain rfl := hmantissa
  exact ⟨_, by omega, congrArg (UnpackedFloat.finite _ _ · _) hexponent⟩

theorem toNat_unpackExponent (b : BitVec Format.binary64.numBits) :
    (unpackExponent b).toNat = b.toNat / 2 ^ 52 % 2 ^ 11 := by
  unfold unpackExponent
  simp [BitVec.extractLsb, Nat.shiftRight_eq_div_pow]

theorem toNat_unpackMantissa (b : BitVec Format.binary64.numBits) :
    (unpackMantissa b).toNat = b.toNat % 2 ^ 52 := by
  unfold unpackMantissa
  simp [BitVec.extractLsb]

theorem log2_eq_of_bounds {m k : Nat} (hm : 2 ^ k ≤ m ∧ m < 2 ^ (k + 1)) : m.log2 = k := by
  have hpos : 0 < 2 ^ k := Nat.two_pow_pos k
  exact (Nat.log2_eq_iff (by omega)).2 hm

theorem pack_normal {s : Sign} {m field : Nat} (hm : 2 ^ 52 ≤ m ∧ m < 2 ^ 53) (hpos : 0 < m)
    (hfield : field < 2046) :
    UnpackedFloat.pack Format.binary64 (.finite s m (field - 1074) hpos) =
      packComponents Format.binary64 s (BitVec.ofNat _ (field + 1)) (BitVec.ofNat _ m) := by
  have hbias : (Format.exponentBias Format.binary64 : Int) = 1023 := rfl
  have hbiased : ((field : Int) - 1074 + 1023 + (52 : Nat)).toNat = field + 1 := by omega
  have hlog : m.log2 = 52 := log2_eq_of_bounds hm
  unfold UnpackedFloat.pack
  dsimp only
  rw [hbias, hbiased, if_neg (by omega), if_pos]
  rw [hlog]
  rfl

/-- The value of the bits of a double that is not too small for a full significand. -/
theorem unpack_ofBits {m field : Nat} (hm : 2 ^ 52 ≤ m ∧ m < 2 ^ 53) (hfield : field < 2046) :
    ∃ s hm, (Float.ofBits (UInt64.ofNat (field * 2 ^ 52 + m))).toModel.unpack =
      .finite s m (field - 1074) hm := by
  have hbits : (UInt64.ofNat (field * 2 ^ 52 + m)).toBitVec.toNat = field * 2 ^ 52 + m := by
    have hlt : field * 2 ^ 52 + m < UInt64.size := by
      have : UInt64.size = 2 ^ 64 := rfl
      omega
    exact UInt64.toNat_ofNat_of_lt' hlt
  obtain ⟨s, hpos, hunpack⟩ := @unpack_normal (UInt64.ofNat (field * 2 ^ 52 + m)).toBitVec m field
    (by rw [toNat_unpackExponent, hbits]; omega) (by rw [toNat_unpackMantissa, hbits]; omega) hfield
  -- Bits are packed again when they become a float.
  change ∃ s hm, UnpackedFloat.unpack Format.binary64 (UnpackedFloat.pack Format.binary64
    (UnpackedFloat.unpack Format.binary64 (UInt64.ofNat (field * 2 ^ 52 + m)).toBitVec)) = _
  rw [hunpack, pack_normal hm hpos hfield]
  refine unpack_normal ?_ ?_ hfield
  · rw [unpackExponent_packComponents, BitVec.toNat_ofNat]
    change (field + 1) % 2 ^ 11 = field + 1
    omega
  · rw [unpackMantissa_packComponents, BitVec.toNat_ofNat]
    change 2 ^ 52 + m % 2 ^ 52 = m
    omega

/-! ## Products of nearest doubles -/

/-- The doubles nearest to two whole numbers have a finite product if that of the numbers has room
for their roundings. -/
theorem isInf_mul_nearest {a b : Nat} (ha : a ≠ 0) (hb : b ≠ 0)
    (h : (a : ℚ) * b * (1 + 2 ^ (-53 : Int)) ^ 2 < doubleLimit) :
    (toDouble false (.finite a 0) * toDouble false (.finite b 0)).isInf = false := by
  have ha' : (1 : ℚ) ≤ a := by exact_mod_cast Nat.one_le_iff_ne_zero.2 ha
  have hb' : (1 : ℚ) ≤ b := by exact_mod_cast Nat.one_le_iff_ne_zero.2 hb
  have hproduct : (a : ℚ) * b < doubleLimit :=
    (le_mul_of_one_le_right (by positivity) one_le_room).trans_lt h
  obtain ⟨field, m, hbits⟩ := BinaryFormat.exists_nearestBits ha
    ((le_mul_of_one_le_right (by positivity) hb').trans_lt hproduct)
  obtain ⟨field', n, hbits'⟩ := BinaryFormat.exists_nearestBits hb
    ((le_mul_of_one_le_left (by positivity) ha').trans_lt hproduct)
  have hx : toDouble false (.finite a 0) = Float.ofBits (UInt64.ofNat (field * 2 ^ 52 + m)) :=
    hbits.nearest_eq ▸ rfl
  have hy : toDouble false (.finite b 0) = Float.ofBits (UInt64.ofNat (field' * 2 ^ 52 + n)) :=
    hbits'.nearest_eq ▸ rfl
  obtain ⟨s, hm, hunpack⟩ := unpack_ofBits hbits.significand hbits.field_lt
  obtain ⟨t, hn, hunpack'⟩ := unpack_ofBits hbits'.significand hbits'.field_lt
  have hvalue : (m : ℚ) * 2 ^ ((field : Int) - 1074) * (n * 2 ^ ((field' : Int) - 1074)) <
      doubleLimit := by
    refine lt_of_le_of_lt ?_ h
    calc (m : ℚ) * 2 ^ ((field : Int) - 1074) * (n * 2 ^ ((field' : Int) - 1074))
        ≤ (a + a * 2 ^ (-53 : Int)) * (b + b * 2 ^ (-53 : Int)) :=
          mul_le_mul hbits.value_le hbits'.value_le (by positivity) (by positivity)
      _ = a * b * (1 + 2 ^ (-53 : Int)) ^ 2 := by ring
  rw [hx, hy]
  refine isInf_mul hunpack hunpack' ?_ hvalue
  -- Full significands leave little room for exponents.
  have hne : m * n ≠ 0 := Nat.mul_ne_zero hm.ne' hn.ne'
  have hfull : 104 ≤ (m * n).log2 := by
    refine (Nat.le_log2 hne).2 ?_
    calc 2 ^ 104 = 2 ^ 52 * 2 ^ 52 := (Nat.pow_add 2 52 52)
      _ ≤ m * n := Nat.mul_le_mul hbits.significand.1 hbits'.significand.1
  have hexponent := @log2_add_lt (m * n) (((field : Int) - 1074) + (field' - 1074)) 1024 hne (by
    refine lt_of_eq_of_lt ?_ (hvalue.trans doubleLimit_lt)
    rw [zpow_add₀ two_ne_zero, Nat.cast_mul]
    ring)
  omega

end TraceWeave.Floating
