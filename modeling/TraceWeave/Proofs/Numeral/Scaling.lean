import TraceWeave.Numeral.Float
import TraceWeave.Proofs.Floating.Product
import TraceWeave.Proofs.Numeral.WellFormed

/-!
# Reading the digits of a float

The digits of a numeral fill a significand, and the digits that no longer fit count by their number
only (`fill_le`), so scaling the significand never exceeds what is written by more than the
roundings.  A numeral is refused only for a result beyond the doubles (`isSome_scale?`); where its
exponent makes it smaller, or where digits stand after the point of few others, it never is.
-/

namespace TraceWeave

open Floating

namespace Numeral

/-- One more digit. -/
def append (n : Nat) (c : Char) : Nat := 10 * n + digitValue c

theorem valueOf_eq (l : List Char) : valueOf l = l.foldl append 0 := rfl

theorem mul_pow_le_foldl (s : Nat) (l : List Char) : s * 10 ^ l.length ≤ l.foldl append s := by
  induction l generalizing s with
  | nil => exact (Nat.mul_one s).le
  | cons c l ih =>
    refine le_trans ?_ (ih (append s c))
    rw [List.length_cons, pow_succ, append]
    nlinarith [Nat.zero_le (digitValue c * 10 ^ l.length)]

/-- The digits that are left count by their number only. -/
theorem fill_le (s : Nat) (l : List Char) :
    (fill s l).1 * 10 ^ (fill s l).2.length ≤ l.foldl append s := by
  induction l generalizing s with
  | nil => exact (Nat.mul_one s).le
  | cons c l ih =>
    rw [fill]
    split
    · exact ih _
    · exact mul_pow_le_foldl s (c :: l)

theorem le_fill (s : Nat) (l : List Char) : s ≤ (fill s l).1 := by
  induction l generalizing s with
  | nil => exact le_rfl
  | cons c l ih =>
    rw [fill]
    split
    · refine le_trans ?_ (ih _)
      omega
    · exact le_rfl

theorem length_fill_le (s : Nat) (l : List Char) : (fill s l).2.length ≤ l.length := by
  induction l generalizing s with
  | nil => exact le_rfl
  | cons c l ih =>
    rw [fill]
    split
    · exact (ih _).trans (Nat.le_succ _)
    · exact le_rfl

theorem fill_cons {s : Nat} {c : Char} (h : append s c < UInt64.size) (l : List Char) :
    fill s (c :: l) = fill (append s c) l := by
  rw [fill]
  exact if_pos h

theorem digitValue_le {c : Char} (h : c.isDigit = true) : digitValue c ≤ 9 := by
  have h9 : c.toNat ≤ '9'.toNat := by
    simp only [Char.isDigit, Bool.and_eq_true, decide_eq_true_eq] at h
    exact h.2
  have hnine : '9'.toNat = 57 := rfl
  have hzero : '0'.toNat = 48 := rfl
  unfold digitValue
  omega

/-- Up to 19 digits fit. -/
theorem fill_of_length {l : List Char} (hl : ∀ c ∈ l, c.isDigit = true) {s k : Nat}
    (hs : s < 10 ^ k) (hk : k + l.length ≤ 19) :
    (fill s l).2 = [] ∧ (fill s l).1 < 10 ^ (k + l.length) := by
  induction l generalizing s k with
  | nil => exact ⟨rfl, hs⟩
  | cons c l ih =>
    rw [List.forall_mem_cons] at hl
    rw [List.length_cons] at hk
    have hdigit := digitValue_le hl.1
    have happend : append s c < 10 ^ (k + 1) := by
      rw [append, pow_succ]
      omega
    have hsize : append s c < UInt64.size :=
      calc append s c < 10 ^ (k + 1) := happend
        _ ≤ 10 ^ 19 := Nat.pow_le_pow_right (by decide) (by omega)
        _ ≤ UInt64.size := by decide
    rw [fill_cons hsize, List.length_cons, ← Nat.add_assoc, Nat.add_right_comm]
    exact ih hl.2 happend (by omega)

/-! ## Scaling -/

theorem isSome_scale?_of_neg {x : Float} {e : Int} (he : e < 0) : (scale? x e).isSome = true := by
  rw [scale?, if_pos he]
  rfl

/-- Powers of ten below the limit are doubles. -/
theorem le_of_pow_lt_doubleLimit {n : Nat} (h : (10 : ℚ) ^ n < doubleLimit) : n ≤ 308 := by
  have hlimit : (10 : ℚ) ^ n < 2 ^ 1024 := by exact_mod_cast h.trans doubleLimit_lt
  have hpow : 10 ^ n < 2 ^ 1024 := by exact_mod_cast hlimit
  have hlt : 2 ^ 1024 < 10 ^ 309 := by decide +kernel
  have hn := (Nat.pow_lt_pow_iff_right (by decide)).1 (hpow.trans hlt)
  omega

/-- A significand is scaled if its value is far enough below the limit of the doubles, as the
significand, the power of ten and their product are all rounded. -/
theorem isSome_scale? {s : Nat} (hs : 0 < s) {e : Int}
    (h : (s : ℚ) * 10 ^ e * (1 + 2 ^ (-53 : Int)) ^ 2 < doubleLimit) :
    (scale? (doubleOfInt s) e).isSome = true := by
  rcases lt_or_ge e 0 with hneg | hnonneg
  · exact isSome_scale?_of_neg hneg
  obtain ⟨n, rfl⟩ : ∃ n : Nat, e = n := ⟨e.toNat, by omega⟩
  rw [zpow_natCast] at h
  have hs' : (1 : ℚ) ≤ s := by exact_mod_cast hs
  have hpower : (10 : ℚ) ^ n < doubleLimit := by
    refine lt_of_le_of_lt ?_ h
    calc (10 : ℚ) ^ n ≤ s * 10 ^ n := le_mul_of_one_le_left (by positivity) hs'
      _ ≤ s * 10 ^ n * (1 + 2 ^ (-53 : Int)) ^ 2 :=
          le_mul_of_one_le_right (by positivity) one_le_room
  have hn : n ≤ 308 := le_of_pow_lt_doubleLimit hpower
  have hfinite : (doubleOfInt s * powerOfTen n).isInf = false := by
    have hproduct : (s : ℚ) * (10 ^ n : Nat) * (1 + 2 ^ (-53 : Int)) ^ 2 < doubleLimit := by
      rwa [Nat.cast_pow]
    have hstart : doubleOfInt s = toDouble false (.finite s 0) := by
      rw [doubleOfInt, Int.natAbs_natCast, decide_eq_false (by omega)]
    rw [hstart]
    exact isInf_mul_nearest hs.ne' (Nat.pow_pos (by decide)).ne' hproduct
  rw [scale?, if_neg (by omega), if_neg (by omega), Int.natAbs_natCast]
  dsimp only
  rw [hfinite]
  rfl

/-! ## Numerals -/

/-- A numeral with few digits before the point, with digits after it and without an exponent. -/
structure Pointed (n : Numeral) : Prop where
  wellFormed : n.WellFormed
  whole_length : n.whole.length ≤ 17
  fraction_ne_nil : n.fraction ≠ []
  exponent : n.exponent = none

/-- A digit after the point is consumed, and makes the numeral smaller. -/
theorem Pointed.isSome_scaledDouble? {n : Numeral} (h : n.Pointed) :
    n.scaledDouble?.isSome = true := by
  obtain ⟨c, rest, hcons⟩ := List.exists_cons_of_ne_nil h.fraction_ne_nil
  have hlength := h.whole_length
  obtain ⟨hleft, hlt⟩ :=
    fill_of_length h.wellFormed.whole_digits (s := 0) (k := 0) (by decide) (by omega)
  have hdigit := digitValue_le (h.wellFormed.fraction_digits c (hcons ▸ List.mem_cons_self))
  have hsize : append (fill 0 n.whole).1 c < UInt64.size := by
    have hlt : (fill 0 n.whole).1 < 10 ^ 17 :=
      hlt.trans_le (Nat.pow_le_pow_right (by decide) (by omega))
    have hsize : UInt64.size = 2 ^ 64 := rfl
    rw [append]
    omega
  have hconsumed : (fill (fill 0 n.whole).1 n.fraction).2.length < n.fraction.length := by
    rw [hcons, fill_cons hsize, List.length_cons]
    exact Nat.lt_succ_of_le (length_fill_le _ _)
  rw [scaledDouble?]
  dsimp only
  rw [h.exponent, hleft]
  dsimp only
  rw [Option.isSome_map]
  refine isSome_scale?_of_neg ?_
  rw [List.length_nil]
  omega

/-- A numeral from which floats of both widths are read. -/
structure DenotesFloat (n : Numeral) : Prop where
  wellFormed : n.WellFormed
  isWhole_eq : n.isWhole = false
  isSome_scaledDouble? : n.scaledDouble?.isSome = true

theorem Pointed.denotesFloat {n : Numeral} (h : n.Pointed) : n.DenotesFloat where
  wellFormed := h.wellFormed
  isWhole_eq := by
    rw [isWhole, List.isEmpty_eq_false_iff.2 h.fraction_ne_nil]
    rfl
  isSome_scaledDouble? := h.isSome_scaledDouble?

namespace DenotesFloat

variable {n : Numeral} (h : n.DenotesFloat)

include h

theorem machineInt?_eq_none : n.machineInt? = none := by
  rw [machineInt?, toInt?, h.isWhole_eq]
  rfl

theorem isSome_toDouble? : n.toDouble?.isSome = true := by
  rw [toDouble?, h.machineInt?_eq_none]
  exact h.isSome_scaledDouble?

theorem isSome_toSingle? : n.toSingle?.isSome = true := by
  rw [toSingle?, h.machineInt?_eq_none]
  exact Option.isSome_map.trans h.isSome_scaledDouble?

end DenotesFloat

end Numeral

end TraceWeave
