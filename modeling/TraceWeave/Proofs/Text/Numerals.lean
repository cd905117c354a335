import TraceWeave.Text.Split
import Mathlib.Data.List.Basic

/-!
# Numerals

A numeral is written in digits and determines its number, so it can be told from the text before
it.  The reader of numbers takes a text exactly if it writes a number (`Text.natural?_eq_some_iff`).
-/

namespace TraceWeave

namespace Text

theorem numeral_injective {m n : Nat} (h : (toString m).toList = (toString n).toList) : m = n := by
  have hvalue : ∀ k : Nat, Nat.ofDigitChars 10 (toString k).toList 0 = k := by
    intro k
    simp
  rw [← hvalue m, h, hvalue]

theorem isDigit_of_mem_numeral {n : Nat} {c : Char} (h : c ∈ (toString n).toList) :
    c.isDigit = true := by
  rw [Nat.toString_eq_repr, Nat.toList_repr] at h
  exact Nat.isDigit_of_mem_toDigits (by omega) (by omega) h

theorem not_mem_numeral {c : Char} (h : c.isDigit = false) (n : Nat) :
    c ∉ (toString n).toList := fun hmem => by
  rw [isDigit_of_mem_numeral hmem] at h
  cases h

/-- The text writes the number: in decimal digits, with or without a plus sign before them. -/
def Writes (l : List Char) (n : Nat) : Prop :=
  ∃ digits, (l = digits ∨ l = '+' :: digits) ∧ digits ≠ [] ∧ (∀ c ∈ digits, c.isDigit) ∧
    Nat.ofDigitChars 10 digits 0 = n

theorem natural?_eq_some_iff {l : List Char} {n : Nat} : natural? l = some n ↔ Writes l n := by
  have hread : ∀ digits : List Char, (if digits.isEmpty || !digits.all Char.isDigit then none
      else some (digits.foldl (fun n c => 10 * n + (c.toNat - '0'.toNat)) 0)) = some n ↔
        digits ≠ [] ∧ (∀ c ∈ digits, c.isDigit) ∧ Nat.ofDigitChars 10 digits 0 = n := by
    intro digits
    rw [Nat.ofDigitChars]
    cases digits <;> simp
  have hsign : ∀ rest, dropStart? ['+'] ('+' :: rest) = some rest := fun rest => by
    simp [dropStart?]
  have hnone : ∀ {l : List Char}, l.head? ≠ some '+' → dropStart? ['+'] l = none := by
    intro l hl
    cases l with
    | nil => rfl
    | cons c rest =>
      have hc : ¬ '+' = c := fun h => hl (congrArg some h.symm)
      simp [dropStart?, hc]
  rw [natural?, hread, Writes]
  constructor
  · intro h
    by_cases hplus : l.head? = some '+'
    · obtain ⟨rest, rfl⟩ := List.head?_eq_some_iff.1 hplus
      rw [hsign, Option.getD_some] at h
      exact ⟨rest, .inr rfl, h⟩
    · rw [hnone hplus, Option.getD_none] at h
      exact ⟨l, .inl rfl, h⟩
  · rintro ⟨digits, rfl | rfl, hne, hdigits, hvalue⟩
    · have hplus : l.head? ≠ some '+' := fun hplus => by
        have hdigit := hdigits '+' (List.mem_of_mem_head? hplus)
        cases hdigit
      rw [hnone hplus, Option.getD_none]
      exact ⟨hne, hdigits, hvalue⟩
    · rw [hsign, Option.getD_some]
      exact ⟨hne, hdigits, hvalue⟩

/-- A separator that stands in neither of two tails splits equal lists at the same place. -/
theorem append_cons_inj {α : Type} {x x' y y' : List α} {a : α} (h : x ++ a :: y = x' ++ a :: y')
    (hy : a ∉ y) (hy' : a ∉ y') : x = x' ∧ y = y' := by
  rcases List.append_eq_append_iff.1 h with ⟨z, hx, hz⟩ | ⟨z, hx, hz⟩
  · cases z with
    | nil => simp_all
    | cons b z =>
      obtain ⟨rfl, rfl⟩ := List.cons.inj hz
      simp at hy
  · cases z with
    | nil => simp_all
    | cons b z =>
      obtain ⟨rfl, rfl⟩ := List.cons.inj hz
      simp at hy'

end Text

end TraceWeave
