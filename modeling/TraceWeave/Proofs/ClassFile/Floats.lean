import TraceWeave.Proofs.ClassFile.Nesting
import TraceWeave.Proofs.Floating.Text

/-!
# Floats in class files

A finite float in a class file is read again, as some float of its width; an infinite one, and what
is no number, is written as null and refused (`Value.isSome_reread`).  Between the float that is
written and the one that is read there may be a difference in the last bits.
-/

namespace TraceWeave

open Floating Json

/-- A value that is no infinite float and no float that is no number. -/
def Value.isFinite : Value → Bool
  | .float x => (singleSize x).isFinite
  | .double x => (doubleSize x).isFinite
  | _ => true

theorem Value.isFinite_zero (ty : Ty) : (Value.zero ty).isFinite = true := by
  cases ty <;> rfl

namespace FloatForm

/-- Finite singles are far from the greatest double. -/
theorem denotesFloat_single {x : Float32} (h : (singleSize x).isFinite = true) :
    ∃ n, Floating.single.numeral? singleLayout x.toBits.toNat = some n ∧ n.DenotesFloat := by
  obtain ⟨m, q, hdecode⟩ := Size.eq_finite h
  have hbounds := BinaryFormat.bounds_of_decode hdecode
  have hwidth : twoTo Floating.single.fractionWidth = 8388608 := rfl
  have hgreatest : max Floating.single.least
      (Floating.single.least + twoTo Floating.single.exponentWidth - 3) = 104 := by decide
  rw [hwidth, hgreatest] at hbounds
  exact BinaryFormat.exists_numeral? hdecode fun hm =>
    BinaryFormat.denotesFloat_shortest (by decide) (by decide) hm (by omega)

/-- The decimals of the two greatest doubles have no room for three roundings up, but are not
rounded up as often. -/
theorem denotesFloat_greatest {negative : Bool} {m : Nat} (h : m + 1 = 2 ^ 53 ∨ m + 2 = 2 ^ 53) :
    (doubleLayout.numeral negative
      (Floating.double.shortest doubleLayout.tie m 971)).DenotesFloat := by
  have hd : 0 < (Floating.double.shortest doubleLayout.tie m 971).digits :=
    BinaryFormat.digits_shortest_pos (by omega) 971
  refine doubleLayout.denotesFloat_numeral (by decide) hd ?_
  obtain rfl | rfl : m = 9007199254740991 ∨ m = 9007199254740990 := by omega
  · cases negative <;> decide +kernel
  · cases negative <;> decide +kernel

theorem denotesFloat_double {x : Float} (h : (doubleSize x).isFinite = true) :
    ∃ n, Floating.double.numeral? doubleLayout x.toBits.toNat = some n ∧ n.DenotesFloat := by
  obtain ⟨m, q, hdecode⟩ := Size.eq_finite h
  have hbounds := BinaryFormat.bounds_of_decode hdecode
  have hwidth : twoTo Floating.double.fractionWidth = 4503599627370496 := rfl
  have hgreatest : max Floating.double.least
      (Floating.double.least + twoTo Floating.double.exponentWidth - 3) = 971 := by decide
  rw [hwidth, hgreatest] at hbounds
  refine BinaryFormat.exists_numeral? hdecode fun hm => ?_
  by_cases hgreatest : 2 ^ 53 < m + 3 ∧ q = 971
  · obtain ⟨hk, rfl⟩ := hgreatest
    exact denotesFloat_greatest (by omega)
  · exact BinaryFormat.denotesFloat_shortest (by decide) (by decide) hm (by omega)

/-- A document for a float: a number from which a float is read, or null. -/
def Denotes (j : Json) (finite : Bool) : Prop :=
  (finite = true ∧ ∃ n, j = .number n ∧ n.DenotesFloat) ∨ (finite = false ∧ j = .null)

theorem denotes_single (x : Float32) : Denotes (file.single x) (singleSize x).isFinite := by
  change Denotes (((Floating.single.numeral? singleLayout x.toBits.toNat).map Json.number).getD
    .null) _
  cases hx : (singleSize x).isFinite with
  | false => exact .inr ⟨rfl, by rw [BinaryFormat.numeral?_eq_none hx]; rfl⟩
  | true =>
    obtain ⟨n, hn, hfloat⟩ := denotesFloat_single hx
    exact .inl ⟨rfl, n, by rw [hn]; rfl, hfloat⟩

theorem denotes_double (x : Float) : Denotes (file.double x) (doubleSize x).isFinite := by
  change Denotes (((Floating.double.numeral? doubleLayout x.toBits.toNat).map Json.number).getD
    .null) _
  cases hx : (doubleSize x).isFinite with
  | false => exact .inr ⟨rfl, by rw [BinaryFormat.numeral?_eq_none hx]; rfl⟩
  | true =>
    obtain ⟨n, hn, hfloat⟩ := denotesFloat_double hx
    exact .inl ⟨rfl, n, by rw [hn]; rfl, hfloat⟩

namespace Denotes

variable {j : Json} {finite : Bool} (h : Denotes j finite)

include h

theorem wellFormed : j.WellFormed := by
  rcases h with ⟨-, n, rfl, hn⟩ | ⟨-, rfl⟩
  · exact .number hn.wellFormed
  · exact .null

theorem isSome_single? : j.single?.isSome = finite := by
  rcases h with ⟨rfl, n, rfl, hn⟩ | ⟨rfl, rfl⟩
  · exact hn.isSome_toSingle?
  · rfl

theorem isSome_double? : j.double?.isSome = finite := by
  rcases h with ⟨rfl, n, rfl, hn⟩ | ⟨rfl, rfl⟩
  · exact hn.isSome_toDouble?
  · rfl

end Denotes

end FloatForm

namespace Value

/-- What is read for the document of a constant. -/
def reread (v : Value) : Option Value := ofJson? 1 (v.toJson .file)

theorem reread_of_isFloat {v : Value} (h : v.isFloat = false) : v.reread = some v :=
  (Value.readsBack .file h).read_eq 1 v.depth_toJson_le

/-- A constant is read as the same with any number of levels. -/
theorem readsAs_reread (v : Value) : ReadsAs ofJson? (v.toJson .file) v.reread := by
  cases hv : v.isFloat with
  | false =>
    rw [reread_of_isFloat hv]
    exact Value.readsBack .file hv
  | true =>
    cases v with
    | float x => exact .variant (FloatForm.denotes_single x).wellFormed fun _ _ => rfl
    | double x => exact .variant (FloatForm.denotes_double x).wellFormed fun _ _ => rfl
    | _ => cases hv

/-- The finite constants are those that are read again. -/
theorem isSome_reread (v : Value) : v.reread.isSome = v.isFinite := by
  cases v with
  | float x => exact Option.isSome_map.trans (FloatForm.denotes_single x).isSome_single?
  | double x => exact Option.isSome_map.trans (FloatForm.denotes_double x).isSome_double?
  | _ =>
    rw [reread_of_isFloat rfl]
    rfl

end Value

end TraceWeave
