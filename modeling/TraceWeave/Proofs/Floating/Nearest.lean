import TraceWeave.Floating.Format
import Mathlib.Algebra.Order.Field.Power
import Mathlib.Data.Rat.Cast.Order
import Mathlib.Tactic.FieldSimp
import Mathlib.Tactic.GCongr
import Mathlib.Tactic.Linarith
import Mathlib.Tactic.Positivity
import Mathlib.Tactic.Ring

/-!
# The double nearest to a whole number

Every whole number below `doubleLimit`, half a unit above the greatest double, has a nearest double
that is finite.  `BinaryFormat.exists_nearestBits` takes its bits apart into an exponent field and a
significand of 53 bits, and bounds its value: it is off by half a unit of the last bit at most.
-/

namespace TraceWeave.Floating

/-- Half a unit above the greatest double: what lies below rounds to a double. -/
def doubleLimit : ℚ := (2 ^ 54 - 1) * 2 ^ (970 : Int)

theorem doubleLimit_add : doubleLimit + 2 ^ (970 : Int) = 2 ^ (1024 : Int) := by
  have hsplit : (2 : ℚ) ^ (1024 : Int) = 2 ^ (54 : Int) * 2 ^ (970 : Int) := by
    rw [← zpow_add₀ two_ne_zero]
    rfl
  rw [hsplit, doubleLimit]
  ring

theorem doubleLimit_lt : doubleLimit < 2 ^ (1024 : Int) := by
  rw [← doubleLimit_add]
  exact lt_add_of_pos_right _ (by positivity)

/-- Two roundings make a value greater. -/
theorem one_le_room : (1 : ℚ) ≤ (1 + 2 ^ (-53 : Int)) ^ 2 :=
  one_le_pow₀ (le_add_of_nonneg_right (by positivity))

theorem two_pow_mul {a b c : Nat} (h : a + b = c) : 2 ^ a * 2 ^ b = 2 ^ c := by rw [← pow_add, h]

/-- The binary logarithm of a value below a power of two. -/
theorem log2_add_lt {m : Nat} {e k : Int} (hm : m ≠ 0) (h : (m : ℚ) * 2 ^ e < 2 ^ k) :
    m.log2 + e < k := by
  have hlog : (2 : ℚ) ^ m.log2 ≤ m := by exact_mod_cast Nat.log2_self_le hm
  refine (zpow_lt_zpow_iff_right₀ (one_lt_two (α := ℚ))).1 ?_
  calc (2 : ℚ) ^ ((m.log2 : Int) + e) = 2 ^ m.log2 * 2 ^ e := by
        rw [zpow_add₀ two_ne_zero, zpow_natCast]
    _ ≤ m * 2 ^ e := by gcongr
    _ < 2 ^ k := h

namespace BinaryFormat

/-- A quotient is rounded by half a unit at most. -/
theorem shiftRight_le (m k : Nat) : 2 ^ k * (2 * shiftRight m k) ≤ 2 * m + 2 ^ k := by
  have hdiv : 2 ^ k * (m / 2 ^ k) + m % 2 ^ k = m := Nat.div_add_mod m (2 ^ k)
  have htwo : twoTo k = 2 ^ k := rfl
  unfold shiftRight
  dsimp only
  rw [htwo, Nat.shiftRight_eq_div_pow]
  split
  · next h =>
    have hrest : 2 ^ k ≤ 2 * (m % 2 ^ k) := by
      simp only [Bool.or_eq_true, Bool.and_eq_true, decide_eq_true_eq] at h
      omega
    linarith
  · have hle := Nat.mul_div_le m (2 ^ k)
    have hpos := Nat.two_pow_pos k
    linarith

theorem div_le_shiftRight (m k : Nat) : m / 2 ^ k ≤ shiftRight m k := by
  unfold shiftRight
  dsimp only
  rw [Nat.shiftRight_eq_div_pow]
  split <;> omega

theorem shiftRight_le_div (m k : Nat) : shiftRight m k ≤ m / 2 ^ k + 1 := by
  unfold shiftRight
  dsimp only
  rw [Nat.shiftRight_eq_div_pow]
  split <;> omega

/-- The significand of the double nearest to a whole number; it may be full. -/
def significandOf (s : Nat) : Nat :=
  if s.log2 ≤ 52 then s * 2 ^ (52 - s.log2) else shiftRight s (s.log2 - 52)

theorem nearest_eq {s : Nat} (hs : s ≠ 0) :
    double.nearest s 0 =
      min ((s.log2 + 1022) * 2 ^ 52 + significandOf s) (2047 * 2 ^ 52) := by
  have hexponent : max ((0 : Int) + (s.log2 + 1) - (53 : Nat)) (-1074) = s.log2 - 52 := by omega
  have hfield : ((s.log2 : Int) - 52 - -1074).toNat = s.log2 + 1022 := by omega
  have hleft : ((0 : Int) - (s.log2 - 52)).toNat = 52 - s.log2 := by omega
  have hright : ((s.log2 : Int) - 52 - 0).toNat = s.log2 - 52 := by omega
  have hcond : ((s.log2 : Int) - 52 ≤ 0) = (s.log2 ≤ 52) := by
    rw [eq_iff_iff]
    omega
  have hwidth : fractionWidth ⟨53, -1074, 11⟩ = 52 := rfl
  have hinfinity : infinity ⟨53, -1074, 11⟩ = 2047 * 2 ^ 52 := rfl
  unfold nearest
  rw [if_neg hs]
  simp only [double, hexponent, hfield, hleft, hright, hcond, hwidth, hinfinity, significandOf,
    Nat.shiftLeft_eq]

theorem significandOf_bounds {s : Nat} (hs : s ≠ 0) :
    2 ^ 52 ≤ significandOf s ∧ significandOf s ≤ 2 ^ 53 := by
  have hlow := Nat.log2_self_le hs
  have hhigh := Nat.lt_log2_self (n := s)
  unfold significandOf
  split
  · next hlog =>
    have hsplit : 2 ^ s.log2 * 2 ^ (52 - s.log2) = 2 ^ 52 :=
      two_pow_mul (by omega)
    have hsplit' : 2 ^ (s.log2 + 1) * 2 ^ (52 - s.log2) = 2 ^ 53 :=
      two_pow_mul (by omega)
    rw [← hsplit, ← hsplit']
    exact ⟨Nat.mul_le_mul_right _ hlow, Nat.mul_le_mul_right _ hhigh.le⟩
  · next hlog =>
    have hsplit : 2 ^ 52 * 2 ^ (s.log2 - 52) = 2 ^ s.log2 :=
      two_pow_mul (by omega)
    have hsplit' : 2 ^ 53 * 2 ^ (s.log2 - 52) = 2 ^ (s.log2 + 1) :=
      two_pow_mul (by omega)
    have hlow' : 2 ^ 52 ≤ s / 2 ^ (s.log2 - 52) := by
      rw [Nat.le_div_iff_mul_le (Nat.two_pow_pos _), hsplit]
      exact hlow
    have hhigh' : s / 2 ^ (s.log2 - 52) < 2 ^ 53 := by
      rw [Nat.div_lt_iff_lt_mul (Nat.two_pow_pos _), hsplit']
      exact hhigh
    exact ⟨hlow'.trans (div_le_shiftRight _ _), (shiftRight_le_div _ _).trans hhigh'⟩

/-- The significand is off by half a unit at most. -/
theorem significandOf_le {s : Nat} :
    (significandOf s : ℚ) * 2 ^ ((s.log2 : Int) - 52) ≤ s + 2 ^ ((s.log2 : Int) - 53) := by
  unfold significandOf
  split
  · next hlog =>
    have hexact : (2 : ℚ) ^ (52 - s.log2) * 2 ^ ((s.log2 : Int) - 52) = 1 := by
      rw [← zpow_natCast, ← zpow_add₀ two_ne_zero]
      convert zpow_zero (2 : ℚ)
      omega
    rw [Nat.cast_mul, Nat.cast_pow, Nat.cast_two, mul_assoc, hexact, mul_one]
    exact le_add_of_nonneg_right (by positivity)
  · next hlog =>
    obtain ⟨k, hk⟩ : ∃ k, s.log2 = k + 52 := ⟨s.log2 - 52, by omega⟩
    have hround : (2 : ℚ) ^ k * (2 * shiftRight s k) ≤ 2 * s + 2 ^ k := by
      exact_mod_cast shiftRight_le s k
    have hexponent : ((k + 52 : Nat) : Int) - 52 = k := by omega
    have hhalf : (2 : ℚ) ^ (((k + 52 : Nat) : Int) - 53) * 2 = 2 ^ k := by
      rw [← zpow_natCast, ← zpow_add_one₀ two_ne_zero]
      congr 1
      omega
    rw [hk, hexponent, Nat.add_sub_cancel, zpow_natCast]
    linarith

/-- A full significand is one bit with a greater exponent. -/
theorem value_of_full {s : Nat} (h : significandOf s = 2 ^ 53) :
    (2 : ℚ) ^ 52 * 2 ^ ((s.log2 : Int) - 51) = significandOf s * 2 ^ ((s.log2 : Int) - 52) := by
  have hone : (s.log2 : Int) - 51 = (s.log2 - 52) + 1 := by omega
  rw [h, hone, zpow_add_one₀ two_ne_zero]
  push_cast
  ring

/-- Below the limit, the greatest exponent has no full significand. -/
theorem log2_ne_of_full {s : Nat} (h : significandOf s = 2 ^ 53) (hlimit : (s : ℚ) < doubleLimit) :
    s.log2 ≠ 1023 := by
  intro hlog
  have hle := (value_of_full h).le.trans significandOf_le
  have hexponents : ((1023 : Nat) : Int) - 51 = 972 ∧ ((1023 : Nat) : Int) - 53 = 970 := by omega
  have hsplit : (2 : ℚ) ^ (1024 : Int) = 2 ^ 52 * 2 ^ (972 : Int) := by
    rw [← zpow_natCast, ← zpow_add₀ two_ne_zero]
    rfl
  rw [hlog, hexponents.1, hexponents.2, ← hsplit, ← doubleLimit_add] at hle
  linarith

/-- The bits of the double nearest to a whole number, as an exponent field and a significand. -/
structure NearestBits (s field m : Nat) : Prop where
  field_lt : field < 2046
  significand : 2 ^ 52 ≤ m ∧ m < 2 ^ 53
  nearest_eq : double.nearest s 0 = field * 2 ^ 52 + m
  /-- The error is half a unit at most, and so a part of the number itself. -/
  value_le : (m : ℚ) * 2 ^ ((field : Int) - 1074) ≤ s + s * 2 ^ (-53 : Int)

theorem exists_nearestBits {s : Nat} (hs : s ≠ 0) (hlimit : (s : ℚ) < doubleLimit) :
    ∃ field m, NearestBits s field m := by
  have hlow : (2 : ℚ) ^ (s.log2 : Int) ≤ s := by
    rw [zpow_natCast]
    exact_mod_cast Nat.log2_self_le hs
  have hunit : (2 : ℚ) ^ ((s.log2 : Int) - 53) ≤ s * 2 ^ (-53 : Int) := by
    rw [sub_eq_add_neg, zpow_add₀ two_ne_zero]
    gcongr
  have hlog : s.log2 < 1024 := by
    have h : (s : ℚ) * 2 ^ (0 : Int) < 2 ^ (1024 : Int) := by
      rw [zpow_zero, mul_one]
      exact hlimit.trans doubleLimit_lt
    have := log2_add_lt hs h
    omega
  have hvalue := (significandOf_le (s := s)).trans (add_le_add_right hunit _)
  obtain ⟨hfull, hbound⟩ := significandOf_bounds hs
  have hnearest : double.nearest s 0 = (s.log2 + 1022) * 2 ^ 52 + significandOf s :=
    (nearest_eq hs).trans (Nat.min_eq_left (by omega))
  rcases hbound.lt_or_eq with hlt | heq
  · refine ⟨s.log2 + 1022, significandOf s, ⟨by omega, ⟨hfull, hlt⟩, hnearest, ?_⟩⟩
    have hexponent : ((s.log2 + 1022 : Nat) : Int) - 1074 = s.log2 - 52 := by omega
    rw [hexponent]
    exact hvalue
  · -- A full significand counts on into the exponent field.
    have hlog' := log2_ne_of_full heq hlimit
    have hexponent : ((s.log2 + 1023 : Nat) : Int) - 1074 = s.log2 - 51 := by omega
    have hcarry : double.nearest s 0 = (s.log2 + 1023) * 2 ^ 52 + 2 ^ 52 := by
      rw [hnearest, heq]
      ring
    refine ⟨s.log2 + 1023, 2 ^ 52, ⟨by omega, by omega, hcarry, ?_⟩⟩
    rw [hexponent, Nat.cast_pow, Nat.cast_two, value_of_full heq]
    exact hvalue

end BinaryFormat

end TraceWeave.Floating
