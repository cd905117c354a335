import TraceWeave.Numeral.Basic
import Mathlib.Data.List.Basic

/-!
# Well-formed numerals

A numeral is well-formed if JSON allows its digits.  Whole numbers are written well-formed
(`wellFormed_ofInt`) and are read back (`toInt?_ofInt`).
-/

namespace TraceWeave.Numeral

/-- What JSON asks of a numeral: digits before the point, of which the first is zero only if it is
the only one, digits after the point, and digits in the exponent. -/
structure WellFormed (n : Numeral) : Prop where
  /-- There are digits before the point. -/
  whole_ne_nil : n.whole ≠ []
  /-- Only digits stand before the point. -/
  whole_digits : ∀ c ∈ n.whole, c.isDigit = true
  /-- A leading zero stands alone. -/
  whole_leading : n.whole.length = 1 ∨ n.whole.head? ≠ some '0'
  /-- Only digits stand after the point. -/
  fraction_digits : ∀ c ∈ n.fraction, c.isDigit = true
  /-- An exponent has digits, and apart from its sign nothing else. -/
  exponent_digits : ∀ e ∈ n.exponent, e.2 ≠ [] ∧ ∀ c ∈ e.2, c.isDigit = true

/-- The digits of a number other than zero begin with another digit than zero. -/
theorem head?_digits_ne_zero {n : Nat} (hn : n ≠ 0) : (digits n).head? ≠ some '0' := by
  induction n using Nat.strongRecOn with
  | ind n ih =>
    rw [digits, Nat.toDigits_eq_if (by omega)]
    split
    · have hdigit : ∀ d : Fin 10, d ≠ 0 → d.val.digitChar ≠ '0' := by decide
      have hne := hdigit ⟨n, ‹_›⟩ (by simpa [Fin.ext_iff] using hn)
      simpa using hne
    · rw [List.head?_append_of_ne_nil _ Nat.toDigits_ne_nil]
      exact ih (n / 10) (by omega) (by omega)

theorem wellFormed_ofInt (n : Int) : (ofInt n).WellFormed where
  whole_ne_nil := Nat.toDigits_ne_nil
  whole_digits _ hc := Nat.isDigit_of_mem_toDigits (by omega) (by omega) hc
  whole_leading := by
    rcases eq_or_ne n.natAbs 0 with h | h
    · exact .inl (by rw [ofInt, h]; rfl)
    · exact .inr (head?_digits_ne_zero h)
  fraction_digits := by simp [ofInt]
  exponent_digits := by simp [ofInt]

/-- Whole numbers are read back; zero is written without a sign. -/
theorem toInt?_ofInt (n : Int) : (ofInt n).toInt? = some n := by
  have hvalue : valueOf (digits n.natAbs) = n.natAbs := Nat.ofDigitChars_ten_toDigits
  by_cases hn : n < 0
  · obtain ⟨k, hk⟩ : ∃ k, n.natAbs = k + 1 := ⟨n.natAbs - 1, by omega⟩
    rw [hk] at hvalue
    simp only [toInt?, isWhole, ofInt, hn, hk, hvalue]
    simp
    omega
  · simp only [toInt?, isWhole, ofInt, hn, hvalue]
    simp
    omega

end TraceWeave.Numeral
