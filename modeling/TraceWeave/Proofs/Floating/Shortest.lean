import TraceWeave.Floating.Shortest
import Mathlib.Algebra.Order.Field.Power
import Mathlib.Data.Nat.Cast.Order.Field
import Mathlib.Data.Rat.Cast.Order
import Mathlib.Tactic.FieldSimp
import Mathlib.Tactic.Linarith
import Mathlib.Tactic.Positivity
import Mathlib.Tactic.Ring

/-!
# Shortest decimals are near

The comparisons of `shortest` are made with whole numbers and mean rationals (`compareScaled_eq`),
so whatever decimal is found for a float is off by half a unit of its last bit at most
(`BinaryFormat.value_shortest`).
-/

namespace TraceWeave.Floating

/-- The value of a decimal. -/
def Decimal.value (d : Decimal) : ℚ := d.digits * 10 ^ d.exponent

theorem zpow_mul_pow {b : ℚ} (hb : b ≠ 0) (n : Int) : b ^ n * b ^ (-n).toNat = b ^ n.toNat := by
  rw [← zpow_natCast, ← zpow_natCast, ← zpow_add₀ hb]
  congr 1
  omega

/-- The comparison is one of rationals. -/
theorem compareScaled_eq (a : Nat) (g : Int) (x : Nat) (e : Int) :
    compareScaled a g x e = compare ((a : ℚ) * 10 ^ g) (x * 2 ^ e) := by
  have hten : (10 : ℚ) ≠ 0 := by norm_num
  have hpos : (0 : ℚ) < 10 ^ (-g).toNat * 2 ^ (-e).toNat := by positivity
  have hleft : (a : ℚ) * 10 ^ g * (10 ^ (-g).toNat * 2 ^ (-e).toNat) =
      ((a * 10 ^ g.toNat * 2 ^ (-e).toNat : Nat) : ℚ) := by
    push_cast
    rw [← zpow_mul_pow hten g]
    ring
  have hright : (x : ℚ) * 2 ^ e * (10 ^ (-g).toNat * 2 ^ (-e).toNat) =
      ((x * 2 ^ e.toNat * 10 ^ (-g).toNat : Nat) : ℚ) := by
    push_cast
    rw [← zpow_mul_pow two_ne_zero e]
    ring
  change compare (a * 10 ^ g.toNat * 2 ^ (-e).toNat) (x * 2 ^ e.toNat * 10 ^ (-g).toNat) = _
  rw [← cmp_eq_compare, ← cmp_eq_compare, ← (Nat.strictMono_cast (α := ℚ)).cmp_map_eq, ← hleft,
    ← hright, cmp_mul_pos_right hpos]

/-- A decimal that rounds to a value is off by half a unit at most. -/
theorem BinaryFormat.bounds_of_readsBack {f : BinaryFormat} {m : Nat} (hm : 0 < m) {q : Int}
    {a : Nat} {g : Int} (h : f.readsBack m q a g = true) :
    (m - 1 / 2) * 2 ^ q ≤ (a : ℚ) * 10 ^ g ∧ (a : ℚ) * 10 ^ g ≤ (m + 1 / 2) * 2 ^ q := by
  have hquarter : (2 : ℚ) ^ (q - 2) = 2 ^ q / 4 := by
    rw [zpow_sub₀ two_ne_zero]
    norm_num
  obtain ⟨x, hx, hlow, hhigh⟩ : ∃ x, 4 * m ≤ x + 2 ∧ compareScaled a g x (q - 2) ≠ .lt ∧
      compareScaled a g (4 * m + 2) (q - 2) ≠ .gt := by
    refine ⟨4 * m - if decide (m = twoTo f.fractionWidth) && decide (f.least < q) then 1 else 2,
      by split <;> omega, ?_⟩
    unfold readsBack at h
    dsimp only at h
    split at h
    · obtain ⟨hlow, hhigh⟩ := Bool.and_eq_true_iff.1 h
      exact ⟨bne_iff_ne.1 hlow, bne_iff_ne.1 hhigh⟩
    · obtain ⟨hlow, hhigh⟩ := Bool.and_eq_true_iff.1 h
      rw [beq_iff_eq.1 hlow, beq_iff_eq.1 hhigh]
      exact ⟨nofun, nofun⟩
  rw [compareScaled_eq, compare_ge_iff_ge] at hlow
  rw [compareScaled_eq, compare_le_iff_le] at hhigh
  constructor
  · have hx : (4 * m : ℚ) ≤ x + 2 := by exact_mod_cast hx
    have hx : (4 * m - 2 : ℚ) ≤ x := by linarith
    calc ((m : ℚ) - 1 / 2) * 2 ^ q = (4 * m - 2) * (2 ^ q / 4) := by ring
      _ ≤ x * (2 ^ q / 4) := mul_le_mul_of_nonneg_right hx (by positivity)
      _ ≤ a * 10 ^ g := hquarter ▸ hlow
  · refine hhigh.trans_eq ?_
    rw [hquarter]
    push_cast
    ring

theorem Tie.pick_cases (tie : Tie) (below : Nat) :
    tie.pick below = below ∨ tie.pick below = below + 1 := by
  cases tie with
  | up => exact .inr rfl
  | even =>
    unfold pick
    dsimp only
    omega

/-- A decimal on a grid reads back. -/
theorem BinaryFormat.readsBack_of_onGrid? {f : BinaryFormat} {tie : Tie} {m : Nat} {q g : Int}
    {a : Nat} (h : f.onGrid? tie m q g = some a) : f.readsBack m q a g = true := by
  unfold onGrid? at h
  dsimp only at h
  split at h
  · next hbelow habove =>
    split at h
    · cases h
      exact hbelow
    · cases h
      rcases tie.pick_cases (m * twoTo q.toNat * tenTo (-g).toNat /
        (tenTo g.toNat * twoTo (-q).toNat)) with hpick | hpick <;> rw [hpick]
      · exact hbelow
      · exact habove
    · cases h
      exact habove
  · next hbelow _ =>
    cases h
    exact hbelow
  · next _ habove =>
    cases h
    exact habove
  · cases h

theorem Decimal.value_strip (fuel : Nat) (d : Decimal) : (d.strip fuel).value = d.value := by
  induction fuel generalizing d with
  | zero => rfl
  | succ fuel ih =>
    unfold strip
    split
    · next h =>
      obtain ⟨k, hk⟩ := Nat.dvd_of_mod_eq_zero h
      rw [ih, value, value, hk, Nat.mul_div_cancel_left k (by decide),
        zpow_add_one₀ (by norm_num)]
      push_cast
      ring
    · rfl

theorem Decimal.value_pos_iff {d : Decimal} : 0 < d.value ↔ 0 < d.digits := by
  unfold value
  rw [mul_pos_iff_of_pos_right (by positivity), Nat.cast_pos]

/-- All digits of a value make it up. -/
theorem Decimal.value_exact (m : Nat) (q : Int) :
    (Decimal.mk (m * twoTo q.toNat * Nat.pow 5 (-q).toNat) (min q 0)).value = m * 2 ^ q := by
  unfold value
  change ((m * 2 ^ q.toNat * 5 ^ (-q).toNat : Nat) : ℚ) * 10 ^ min q 0 = _
  push_cast
  rcases le_total q 0 with hq | hq
  · obtain ⟨n, rfl⟩ : ∃ n : Nat, q = -n := ⟨(-q).toNat, by omega⟩
    have hten : (10 : ℚ) ^ n = 5 ^ n * 2 ^ n := by
      rw [← mul_pow]
      norm_num
    rw [Int.toNat_neg_natCast, neg_neg, Int.toNat_natCast, min_eq_left hq, zpow_neg, zpow_neg,
      zpow_natCast, zpow_natCast, hten]
    field_simp
  · obtain ⟨n, rfl⟩ : ∃ n : Nat, q = n := ⟨q.toNat, by omega⟩
    rw [Int.toNat_neg_natCast, Int.toNat_natCast, min_eq_right hq, zpow_natCast]
    ring

/-- The shortest decimal of a value is off by half a unit at most. -/
theorem BinaryFormat.value_shortest {f : BinaryFormat} {tie : Tie} {m : Nat} (hm : 0 < m)
    (q : Int) :
    (m - 1 / 2) * 2 ^ q ≤ (f.shortest tie m q).value ∧
      (f.shortest tie m q).value ≤ (m + 1 / 2) * 2 ^ q := by
  unfold shortest
  dsimp only
  rw [Decimal.value_strip]
  generalize hfound : List.findSome? _ _ = found
  cases found with
  | some d =>
    obtain ⟨g, -, h⟩ := List.exists_of_findSome?_eq_some hfound
    obtain ⟨a, ha, rfl⟩ := Option.map_eq_some_iff.1 h
    exact bounds_of_readsBack hm (readsBack_of_onGrid? ha)
  | none =>
    have hpos : (0 : ℚ) < 2 ^ q := by positivity
    rw [Option.getD_none, Decimal.value_exact]
    constructor <;> linarith

theorem BinaryFormat.digits_shortest_pos {f : BinaryFormat} {tie : Tie} {m : Nat} (hm : 0 < m)
    (q : Int) : 0 < (f.shortest tie m q).digits := by
  have hm' : (1 : ℚ) ≤ m := by exact_mod_cast hm
  refine Decimal.value_pos_iff.1 (lt_of_lt_of_le ?_ (value_shortest hm q).1)
  exact mul_pos (by linarith) (by positivity)

end TraceWeave.Floating
