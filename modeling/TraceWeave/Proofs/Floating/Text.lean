import TraceWeave.Floating.Text
import TraceWeave.Proofs.Floating.Shortest
import TraceWeave.Proofs.Numeral.Scaling
import TraceWeave.Proofs.Numeral.WellFormed

/-!
# Written floats are read

A layout writes a decimal with the point in place or with an exponent (`Layout.numeral_cases`).  The
first is always read; the second is too if the decimal, rounded a few times more, stays within the
doubles (`Decimal.HasRoom`).  The shortest decimals of finite floats have that room, but for those
of the two greatest doubles (`hasRoom_of_value_le`).
-/

namespace TraceWeave

open Floating

namespace Numeral

theorem isDigit_of_mem_digits {n : Nat} {c : Char} (h : c ∈ digits n) : c.isDigit = true :=
  Nat.isDigit_of_mem_toDigits (by omega) (by omega) h

theorem digits_ne_nil (n : Nat) : digits n ≠ [] := Nat.toDigits_ne_nil

theorem valueOf_digits (n : Nat) : valueOf (digits n) = n := Nat.ofDigitChars_ten_toDigits

/-- The digits of a positive number begin with one that counts. -/
theorem exists_digits_eq_cons {n : Nat} (hn : 0 < n) :
    ∃ c rest, digits n = c :: rest ∧ 0 < digitValue c ∧ c.isDigit = true := by
  obtain ⟨c, rest, hcons⟩ := List.exists_cons_of_ne_nil (digits_ne_nil n)
  have hdigit : c.isDigit = true := isDigit_of_mem_digits (hcons ▸ List.mem_cons_self)
  refine ⟨c, rest, hcons, ?_, hdigit⟩
  have hne : c ≠ '0' := by
    rintro rfl
    exact head?_digits_ne_zero hn.ne' (by rw [hcons]; rfl)
  have hlow : '0'.toNat ≤ c.toNat := by
    simp only [Char.isDigit, Bool.and_eq_true, decide_eq_true_eq] at hdigit
    exact hdigit.1
  have hlt : '0'.toNat < c.toNat :=
    hlow.lt_of_ne fun heq => hne (Char.ext (UInt32.toNat_inj.1 heq.symm))
  exact Nat.sub_pos_of_lt hlt

/-! ## Points in place -/

section

variable {negative : Bool} {l : List Char} (hl : ∀ c ∈ l, c.isDigit = true)

include hl

theorem isDigit_of_mem_append_zeros {n : Nat} {c : Char}
    (h : c ∈ l ∨ c ∈ List.replicate n '0') : c.isDigit = true := by
  rcases h with h | h
  · exact hl c h
  · rw [List.eq_of_mem_replicate h]
    rfl

/-- The point before all digits, and before some zeros. -/
theorem pointed_zeros (hne : l ≠ []) (n : Nat) :
    (Numeral.mk negative ['0'] (List.replicate n '0' ++ l) none).Pointed where
  wellFormed :=
    { whole_ne_nil := List.cons_ne_nil _ _
      whole_digits := List.forall_mem_singleton.2 rfl
      whole_leading := .inl rfl
      fraction_digits := fun _ hc => isDigit_of_mem_append_zeros hl (List.mem_append.1 hc).symm
      exponent_digits := nofun }
  whole_length := show 1 ≤ 17 by decide
  fraction_ne_nil := List.append_ne_nil_of_right_ne_nil _ hne
  exponent := rfl

/-- The point after all digits, and after some zeros. -/
theorem pointed_padded (hne : l ≠ []) (hleading : l.head? ≠ some '0') {n : Nat}
    (hlength : l.length + n ≤ 17) :
    (Numeral.mk negative (l ++ List.replicate n '0') ['0'] none).Pointed where
  wellFormed :=
    { whole_ne_nil := List.append_ne_nil_of_left_ne_nil hne _
      whole_digits := fun _ hc => isDigit_of_mem_append_zeros hl (List.mem_append.1 hc)
      whole_leading := .inr (by rwa [List.head?_append_of_ne_nil _ hne])
      fraction_digits := List.forall_mem_singleton.2 rfl
      exponent_digits := nofun }
  whole_length := by rwa [List.length_append, List.length_replicate]
  fraction_ne_nil := List.cons_ne_nil _ _
  exponent := rfl

/-- The point among the digits. -/
theorem pointed_within (hleading : l.head? ≠ some '0') {n : Nat} (hpos : 0 < n)
    (hlt : n < l.length) (hn : n ≤ 17) :
    (Numeral.mk negative (l.take n) (l.drop n) none).Pointed where
  wellFormed :=
    { whole_ne_nil := List.ne_nil_of_length_pos (by rw [List.length_take]; omega)
      whole_digits := fun c hc => hl c (List.mem_of_mem_take hc)
      whole_leading := .inr (by rwa [List.head?_take, if_neg hpos.ne'])
      fraction_digits := fun c hc => hl c (List.mem_of_mem_drop hc)
      exponent_digits := nofun }
  whole_length := (List.length_take_le _ _).trans hn
  fraction_ne_nil := List.ne_nil_of_length_pos (by rw [List.length_drop]; omega)
  exponent := rfl

end

/-! ## Digits with an exponent -/

/-- The digits of a number as they fill a significand, the first of them before the point. -/
structure Fills (n : Nat) (c : Char) (rest : List Char) (s : Nat) (left : List Char) : Prop where
  digits_eq : digits n = c :: rest
  first : fill 0 [c] = (digitValue c, [])
  others : fill (digitValue c) rest = (s, left)
  pos : 0 < s
  le : s * 10 ^ left.length ≤ n
  length_le : left.length ≤ rest.length
  pow_le : 10 ^ rest.length ≤ n

theorem exists_fills {n : Nat} (hn : 0 < n) : ∃ c rest s left, Fills n c rest s left := by
  obtain ⟨c, rest, hcons, hc, hdigit⟩ := exists_digits_eq_cons hn
  have happend : append 0 c = digitValue c := by rw [append, Nat.mul_zero, Nat.zero_add]
  have hvalue : rest.foldl append (digitValue c) = n := by
    rw [← valueOf_digits n, hcons, valueOf_eq, List.foldl_cons, happend]
  have hfirst : fill 0 [c] = (digitValue c, []) := by
    have hsize : append 0 c < UInt64.size :=
      happend ▸ (digitValue_le hdigit).trans_lt (by decide)
    rw [fill_cons hsize, happend]
    rfl
  exact ⟨c, rest, _, _,
    { digits_eq := hcons
      first := hfirst
      others := rfl
      pos := hc.trans_le (le_fill (digitValue c) rest)
      le := (fill_le (digitValue c) rest).trans_eq hvalue
      length_le := length_fill_le (digitValue c) rest
      pow_le := hvalue ▸ (Nat.le_mul_of_pos_left _ hc).trans (mul_pow_le_foldl _ _) }⟩

end Numeral

namespace Floating

variable {layout : Layout} {negative : Bool} {d : Decimal}

/-- Below the limit even when the significand, the power of ten and their product are rounded. -/
def Decimal.HasRoom (d : Decimal) : Prop := d.value * (1 + 2 ^ (-53 : Int)) ^ 2 < doubleLimit

/-- What is written with room has a point that does not stand far to the right. -/
theorem Decimal.HasRoom.point_le (h : d.HasRoom) {k : Nat} (hk : 10 ^ k ≤ d.digits)
    (hpoint : 0 ≤ d.exponent + (k : Int)) : d.exponent + (k : Int) ≤ 308 := by
  obtain ⟨n, hn⟩ : ∃ n : Nat, d.exponent + (k : Int) = n := ⟨(d.exponent + k).toNat, by omega⟩
  have hk' : (10 : ℚ) ^ k ≤ d.digits := by exact_mod_cast hk
  have hpow : (10 : ℚ) ^ n < doubleLimit := by
    refine lt_of_le_of_lt ?_ h
    calc (10 : ℚ) ^ n = 10 ^ k * 10 ^ d.exponent := by
          rw [← zpow_natCast, ← zpow_natCast, ← hn, zpow_add₀ (by norm_num), mul_comm]
      _ ≤ d.value := mul_le_mul_of_nonneg_right hk' (by positivity)
      _ ≤ d.value * (1 + 2 ^ (-53 : Int)) ^ 2 :=
          le_mul_of_one_le_right (by unfold Decimal.value; positivity) one_le_room
  have hn308 := Numeral.le_of_pow_lt_doubleLimit hpow
  omega

/-- A significand that was filled with the first digits is scaled. -/
theorem Decimal.HasRoom.isSome_scale? (h : d.HasRoom) {s k : Nat} (hs : 0 < s)
    (hle : s * 10 ^ k ≤ d.digits) {e : Int} (he : e = d.exponent + k) :
    (Numeral.scale? (doubleOfInt s) e).isSome = true := by
  refine Numeral.isSome_scale? hs (lt_of_le_of_lt ?_ h)
  have hle' : (s : ℚ) * 10 ^ k ≤ d.digits := by exact_mod_cast hle
  refine mul_le_mul_of_nonneg_right ?_ (zero_le_one.trans one_le_room)
  calc (s : ℚ) * 10 ^ e = s * 10 ^ k * 10 ^ d.exponent := by
        rw [he, zpow_add₀ (by norm_num), zpow_natCast]
        ring
    _ ≤ d.value := mul_le_mul_of_nonneg_right hle' (by positivity)

/-- The numeral with an exponent. -/
def Layout.scientific (layout : Layout) (negative : Bool) (d : Decimal) : Numeral :=
  let digits := Numeral.digits d.digits
  let point := d.exponent + digits.length
  { negative, whole := digits.take 1, fraction := digits.drop 1,
    exponent := some (if point - 1 < 0 then .minus else layout.sign,
      Numeral.digits (point - 1).natAbs) }

theorem Layout.isSome_scaledDouble?_scientific (hsign : layout.sign ≠ .minus)
    (hd : 0 < d.digits) (hroom : d.HasRoom) :
    (layout.scientific negative d).scaledDouble?.isSome = true := by
  obtain ⟨c, rest, s, left, hfills⟩ := Numeral.exists_fills hd
  have hlength := hfills.length_le
  have hpoint : d.exponent + ((c :: rest).length : Int) - 1 = d.exponent + rest.length := by
    rw [List.length_cons]
    omega
  unfold scientific Numeral.scaledDouble?
  dsimp only
  rw [hfills.digits_eq, List.take_succ_cons, List.take_zero, List.drop_succ_cons, List.drop_zero,
    hfills.first]
  dsimp only
  rw [hfills.others]
  dsimp only
  rw [hpoint, Numeral.valueOf_digits, List.length_nil]
  -- A negative exponent is never refused, however many digits it has.
  rcases lt_or_ge (d.exponent + (rest.length : Int)) 0 with hneg | hnonneg
  · rw [if_pos hneg]
    split
    · rw [Option.isSome_map, if_pos rfl]
      exact Numeral.isSome_scale?_of_neg (by omega)
    · simp
  · have hpoint := hroom.point_le hfills.pow_le hnonneg
    have hexponent : (d.exponent + (rest.length : Int)).natAbs ≤ Numeral.maxExponent :=
      (show _ ≤ 308 by omega).trans (by decide)
    rw [if_neg hnonneg.not_gt, if_pos hexponent, if_neg hsign, Option.isSome_map]
    exact hroom.isSome_scale? hfills.pos hfills.le (by omega)

theorem Layout.wellFormed_scientific (hd : 0 < d.digits) :
    (layout.scientific negative d).WellFormed := by
  obtain ⟨c, rest, hcons, -⟩ := Numeral.exists_digits_eq_cons hd
  have hdigits : ∀ b ∈ c :: rest, b.isDigit = true := fun b hb =>
    Numeral.isDigit_of_mem_digits (hcons ▸ hb)
  unfold scientific
  rw [hcons]
  exact
    { whole_ne_nil := List.cons_ne_nil c []
      whole_digits := List.forall_mem_singleton.2 (hdigits c List.mem_cons_self)
      whole_leading := .inl rfl
      fraction_digits := fun b hb => hdigits b (List.mem_cons_of_mem c hb)
      exponent_digits := fun e he => by
        cases he
        exact ⟨Numeral.digits_ne_nil _, fun b => Numeral.isDigit_of_mem_digits⟩ }

/-- A decimal is written with the point in place or with an exponent. -/
theorem Layout.numeral_cases (hlast : layout.last ≤ 17) (hd : 0 < d.digits) :
    (layout.numeral negative d).Pointed ∨
      layout.numeral negative d = layout.scientific negative d := by
  have hdigits : ∀ c ∈ Numeral.digits d.digits, c.isDigit = true := fun c =>
    Numeral.isDigit_of_mem_digits
  have hleading := Numeral.head?_digits_ne_zero hd.ne'
  have hne := Numeral.digits_ne_nil d.digits
  unfold numeral scientific
  dsimp only
  generalize Numeral.digits d.digits = digits at *
  split
  · next hplace =>
    have hpoint : d.exponent + digits.length ≤ 17 := by
      simp only [Bool.and_eq_true, decide_eq_true_eq] at hplace
      omega
    left
    split
    · exact Numeral.pointed_zeros hdigits hne _
    · split
      · exact Numeral.pointed_padded hdigits hne hleading (by omega)
      · exact Numeral.pointed_within hdigits hleading (by omega) (by omega) (by omega)
  · exact .inr rfl

theorem Layout.denotesFloat_numeral (hlast : layout.last ≤ 17) (hd : 0 < d.digits)
    (hscaled : (layout.scientific negative d).scaledDouble?.isSome = true) :
    (layout.numeral negative d).DenotesFloat := by
  rcases layout.numeral_cases hlast hd with h | h
  · exact h.denotesFloat
  · rw [h]
    exact
      { wellFormed := layout.wellFormed_scientific hd
        isWhole_eq := Bool.and_false _
        isSome_scaledDouble? := hscaled }

/-! ## Finite floats -/

/-- The significand of a finite float has the bits of the format, and its exponent fits the field
with its greatest value left out. -/
theorem BinaryFormat.bounds_of_decode {f : BinaryFormat} {bits m : Nat} {q : Int}
    (h : f.decode bits = .finite m q) :
    m < 2 * twoTo f.fractionWidth ∧ q ≤ max f.least (f.least + twoTo f.exponentWidth - 3) := by
  have hpos : 0 < twoTo f.fractionWidth := Nat.two_pow_pos _
  have hfraction := Nat.mod_lt (bits % f.signBit) hpos
  unfold decode at h
  dsimp only at h
  split at h
  · cases h
  · next hinfinity =>
    split at h
    · cases h
    · next hnan =>
      split at h
      · cases h
        exact ⟨by omega, le_max_left _ _⟩
      · cases h
        have hfield : bits % f.signBit < (twoTo f.exponentWidth - 1) * twoTo f.fractionWidth := by
          have hinfinity : f.infinity = (twoTo f.exponentWidth - 1) * twoTo f.fractionWidth :=
            Nat.shiftLeft_eq _ _
          omega
        have hexponent : (bits % f.signBit) >>> f.fractionWidth < twoTo f.exponentWidth - 1 := by
          rw [Nat.shiftRight_eq_div_pow]
          exact (Nat.div_lt_iff_lt_mul hpos).2 hfield
        generalize (bits % f.signBit) >>> f.fractionWidth = exponent at *
        exact ⟨by omega, le_max_of_le_right (by omega)⟩

/-- Half a unit more leaves room for the roundings, but for the two greatest doubles. -/
theorem hasRoom_of_value_le {m : Nat} {q : Int} (hvalue : d.value ≤ (m + 1 / 2) * 2 ^ q)
    (h : m < 2 ^ 53 ∧ q ≤ 970 ∨ m + 3 ≤ 2 ^ 53 ∧ q ≤ 971) : d.HasRoom := by
  refine (mul_le_mul_of_nonneg_right hvalue (zero_le_one.trans one_le_room)).trans_lt ?_
  rcases h with ⟨hm, hq⟩ | ⟨hm, hq⟩
  · have hm' : (m : ℚ) + 1 / 2 ≤ 2 ^ 53 := by
      have hm' : (m : ℚ) + 1 ≤ 2 ^ 53 := by exact_mod_cast hm
      linarith
    have hq' : (2 : ℚ) ^ q ≤ 2 ^ (970 : Int) := zpow_le_zpow_right₀ one_le_two hq
    calc ((m : ℚ) + 1 / 2) * 2 ^ q * (1 + 2 ^ (-53 : Int)) ^ 2
        ≤ 2 ^ 53 * 2 ^ (970 : Int) * (1 + 2 ^ (-53 : Int)) ^ 2 := by gcongr
      _ = 2 ^ 53 * (1 + 2 ^ (-53 : Int)) ^ 2 * 2 ^ (970 : Int) := by ring
      _ < doubleLimit := mul_lt_mul_of_pos_right (by norm_num) (by positivity)
  · have hm' : (m : ℚ) + 1 / 2 ≤ 2 ^ 53 - 5 / 2 := by
      have hm' : (m : ℚ) + 3 ≤ 2 ^ 53 := by exact_mod_cast hm
      linarith
    have hq' : (2 : ℚ) ^ q ≤ 2 * 2 ^ (970 : Int) := by
      rw [← zpow_one_add₀ two_ne_zero]
      exact zpow_le_zpow_right₀ one_le_two hq
    calc ((m : ℚ) + 1 / 2) * 2 ^ q * (1 + 2 ^ (-53 : Int)) ^ 2
        ≤ (2 ^ 53 - 5 / 2) * (2 * 2 ^ (970 : Int)) * (1 + 2 ^ (-53 : Int)) ^ 2 := by gcongr
      _ = (2 ^ 54 - 5) * (1 + 2 ^ (-53 : Int)) ^ 2 * 2 ^ (970 : Int) := by ring
      _ < doubleLimit := mul_lt_mul_of_pos_right (by norm_num) (by positivity)

/-- The shortest decimal of a float, written under a layout, denotes a float, if there is room. -/
theorem BinaryFormat.denotesFloat_shortest {f : BinaryFormat} {m : Nat} {q : Int}
    (hlast : layout.last ≤ 17) (hsign : layout.sign ≠ .minus) (hm : 0 < m)
    (h : m < 2 ^ 53 ∧ q ≤ 970 ∨ m + 3 ≤ 2 ^ 53 ∧ q ≤ 971) :
    (layout.numeral negative (f.shortest layout.tie m q)).DenotesFloat := by
  have hd : 0 < (f.shortest layout.tie m q).digits := digits_shortest_pos hm q
  have hroom : (f.shortest layout.tie m q).HasRoom := hasRoom_of_value_le (value_shortest hm q).2 h
  exact layout.denotesFloat_numeral hlast hd (layout.isSome_scaledDouble?_scientific hsign hd hroom)

/-- Zero denotes a float. -/
theorem denotesFloat_zero : (Numeral.mk negative ['0'] ['0'] none).DenotesFloat :=
  (Numeral.pointed_zeros (List.forall_mem_singleton.2 rfl) (List.cons_ne_nil _ _) 0).denotesFloat

/-- A finite float has a numeral, and it denotes a float if its decimal does. -/
theorem BinaryFormat.exists_numeral? {f : BinaryFormat} {bits m : Nat} {q : Int}
    (h : f.decode bits = .finite m q)
    (hshortest : 0 < m → (layout.numeral (f.isNegative bits)
      (f.shortest layout.tie m q)).DenotesFloat) :
    ∃ n, f.numeral? layout bits = some n ∧ n.DenotesFloat := by
  rw [numeral?, h]
  cases m with
  | zero => exact ⟨_, rfl, denotesFloat_zero⟩
  | succ k => exact ⟨_, rfl, hshortest (Nat.succ_pos k)⟩

/-- The size of a number. -/
def Size.isFinite : Size → Bool
  | .finite _ _ => true
  | _ => false

theorem Size.eq_finite {size : Size} (h : size.isFinite = true) : ∃ m q, size = .finite m q := by
  cases size with
  | finite m q => exact ⟨m, q, rfl⟩
  | infinite => cases h
  | nan => cases h

theorem BinaryFormat.numeral?_eq_none {f : BinaryFormat} {bits : Nat}
    (h : (f.decode bits).isFinite = false) : f.numeral? layout bits = none := by
  rw [numeral?]
  cases hsize : f.decode bits with
  | finite m q =>
    rw [hsize] at h
    cases h
  | infinite => rfl
  | nan => rfl

end Floating

end TraceWeave
