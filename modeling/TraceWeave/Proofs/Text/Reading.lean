import TraceWeave.Text.Blank
import TraceWeave.Text.Split
import Mathlib.Data.List.Infix
import Mathlib.Data.List.TakeWhile

/-!
# Reading texts back

What the readers of texts find in a text that was put together from parts: where it was joined with
a separator they cut it (`splitOn_eq_splitOn`, `splitFirst?_eq_some_iff`), between visible ends
there is nothing to trim (`trim_eq_self`), and a part without blanks is not found across a blank
(`hasPart_append_cons`).  A reader that does not mind blanks around the parts does not mind blanks
around the whole text either (`map_splitOn_trim`).
-/

namespace TraceWeave.Text

theorem splitOn_eq_splitOn (sep : Char) (l : List Char) : splitOn sep l = l.splitOn sep := by
  induction l with
  | nil => rfl
  | cons c rest ih =>
    rw [splitOn, List.foldr_cons, ← splitOn, List.splitOn, List.splitOnP_cons_eq_if_modifyHead,
      ← List.splitOn, ← ih]
    by_cases h : c = sep
    · simp [h]
    · rw [if_neg h, if_neg (by simpa using h)]
      cases hrest : splitOn sep rest with
      | nil =>
        rw [hrest] at ih
        exact absurd ih.symm (List.splitOnP_ne_nil _ _)
      | cons piece pieces => rfl

theorem splitOn_ne_nil (sep : Char) (l : List Char) : splitOn sep l ≠ [] :=
  splitOn_eq_splitOn sep l ▸ List.splitOn_ne_nil sep l

theorem splitOn_of_not_mem {sep : Char} {l : List Char} (h : sep ∉ l) : splitOn sep l = [l] := by
  rw [splitOn_eq_splitOn, List.splitOn, List.splitOnP_eq_singleton]
  intro c hc
  have hne : c ≠ sep := fun hsep => h (hsep ▸ hc)
  simpa using hne

theorem splitOn_append_cons (sep : Char) (l l' : List Char) :
    splitOn sep (l ++ sep :: l') = splitOn sep l ++ splitOn sep l' := by
  simp only [splitOn_eq_splitOn, List.splitOn]
  exact List.splitOnP_append_cons l l' (by simp)

/-- A text without separators stays before the first piece. -/
theorem splitOn_append_of_not_mem {sep : Char} {l : List Char} (h : sep ∉ l) (l' : List Char) :
    splitOn sep (l ++ l') = (splitOn sep l').modifyHead (l ++ ·) := by
  induction l with
  | nil =>
    rw [List.nil_append]
    cases splitOn sep l' <;> rfl
  | cons c rest ih =>
    rw [List.mem_cons, not_or] at h
    have hne : ¬ c = sep := fun hc => h.1 hc.symm
    rw [splitOn_eq_splitOn, List.cons_append, List.splitOn, List.splitOnP_cons_eq_if_modifyHead,
      if_neg (by simpa using hne), ← List.splitOn, ← splitOn_eq_splitOn, ih h.2,
      List.modifyHead_modifyHead]
    rfl

/-- Pieces that were joined are cut again; the last one may be cut further. -/
theorem splitOn_intercalate {sep : Char} {pieces : List (List Char)} (h : ∀ l ∈ pieces, sep ∉ l)
    (last : List Char) :
    splitOn sep ([sep].intercalate (pieces ++ [last])) = pieces ++ splitOn sep last := by
  induction pieces with
  | nil => simp [List.intercalate]
  | cons l rest ih =>
    have hjoin : [sep].intercalate (l :: rest ++ [last]) =
        l ++ sep :: [sep].intercalate (rest ++ [last]) := by
      cases rest <;> simp [List.intercalate]
    rw [hjoin, splitOn_append_cons, splitOn_of_not_mem (h l (by simp)),
      ih fun l hl => h l (by simp [hl])]
    rfl

theorem splitFirst?_append_cons {sep : Char} {l : List Char} (h : sep ∉ l) (l' : List Char) :
    splitFirst? sep (l ++ sep :: l') = some (l, l') := by
  have hne : ∀ c ∈ l, decide (c ≠ sep) = true := fun c hc =>
    decide_eq_true fun hsep => h (hsep ▸ hc)
  rw [splitFirst?, List.dropWhile_append_of_pos hne, List.takeWhile_append_of_pos hne]
  simp

theorem splitFirst?_of_not_mem {sep : Char} {l : List Char} (h : sep ∉ l) :
    splitFirst? sep l = none := by
  have hall : l.dropWhile (· ≠ sep) = [] := by
    rw [List.dropWhile_eq_nil_iff]
    exact fun c hc => decide_eq_true fun hsep => h (hsep ▸ hc)
  rw [splitFirst?, hall]

/-- A text is cut in two exactly at its first separator. -/
theorem splitFirst?_eq_some_iff {sep : Char} {l before after : List Char} :
    splitFirst? sep l = some (before, after) ↔ l = before ++ sep :: after ∧ sep ∉ before := by
  constructor
  · intro h
    by_cases hsep : sep ∈ l
    · obtain ⟨before', after', rfl, hnot⟩ := List.eq_append_cons_of_mem hsep
      rw [splitFirst?_append_cons hnot] at h
      cases h
      exact ⟨rfl, hnot⟩
    · rw [splitFirst?_of_not_mem hsep] at h
      cases h
  · rintro ⟨rfl, hnot⟩
    exact splitFirst?_append_cons hnot after

theorem dropWhile_isBlank {l : List Char} (h : ∃ c, l.head? = some c ∧ isBlank c = false) :
    l.dropWhile isBlank = l := by
  obtain ⟨c, hc, hvisible⟩ := h
  obtain ⟨rest, rfl⟩ := List.head?_eq_some_iff.1 hc
  exact List.dropWhile_cons_of_neg (by simp [hvisible])

/-- A text whose last character is visible has nothing to trim at its end. -/
theorem trimEnd_eq_self {l : List Char} (h : ∃ c, l.getLast? = some c ∧ isBlank c = false) :
    trimEnd l = l := by
  rw [trimEnd, dropWhile_isBlank (by rwa [List.head?_reverse]), List.reverse_reverse]

/-- A text that begins and ends with visible characters. -/
structure HasVisibleEnds (l : List Char) : Prop where
  first : ∃ c, l.head? = some c ∧ isBlank c = false
  last : ∃ c, l.getLast? = some c ∧ isBlank c = false

theorem HasVisibleEnds.between {start finish : List Char}
    (hstart : ∃ c, start.head? = some c ∧ isBlank c = false)
    (hfinish : ∃ c, finish.getLast? = some c ∧ isBlank c = false) (l : List Char) :
    HasVisibleEnds (start ++ (l ++ finish)) := by
  obtain ⟨first, hfirst, hvisible⟩ := hstart
  obtain ⟨last, hlast, hvisible'⟩ := hfinish
  refine ⟨⟨first, ?_, hvisible⟩, last, ?_, hvisible'⟩
  · rw [List.head?_append, hfirst]
    rfl
  · rw [List.getLast?_append, List.getLast?_append, hlast]
    rfl

theorem trim_eq_self {l : List Char} (h : HasVisibleEnds l) : trim l = l := by
  rw [trim, trimStart, dropWhile_isBlank h.first, trimEnd_eq_self h.last]

/-- After a text with visible ends, only the end is trimmed. -/
theorem trim_append {start : List Char} (h : HasVisibleEnds start) (l : List Char) :
    trim (start ++ l) = start ++ trimEnd l := by
  have hstart : (start ++ l).dropWhile isBlank = start ++ l := by
    obtain ⟨c, hc, hvisible⟩ := h.first
    exact dropWhile_isBlank ⟨c, by rw [List.head?_append, hc]; rfl, hvisible⟩
  have hend : start.reverse.dropWhile isBlank = start.reverse :=
    dropWhile_isBlank (by rw [List.head?_reverse]; exact h.last)
  rw [trim, trimStart, hstart, trimEnd, trimEnd, List.reverse_append, List.dropWhile_append]
  split
  · next h =>
    rw [hend, List.reverse_reverse, List.isEmpty_iff.1 h, List.reverse_nil, List.append_nil]
  · rw [List.reverse_append, List.reverse_reverse]

/-! ## Surrounding blanks -/

theorem not_mem_of_allBlank {b : List Char} (hb : allBlank b) {c : Char} (hc : isBlank c = false) :
    c ∉ b := fun hmem => by
  rw [List.all_eq_true.1 hb c hmem] at hc
  cases hc

theorem allBlank_reverse {b : List Char} (hb : allBlank b) : allBlank b.reverse :=
  List.all_reverse.trans hb

theorem trimStart_append_of_allBlank {b : List Char} (hb : allBlank b) (l : List Char) :
    trimStart (b ++ l) = trimStart l := List.dropWhile_append_of_pos (List.all_eq_true.1 hb)

theorem trimEnd_append_of_allBlank {b : List Char} (hb : allBlank b) (l : List Char) :
    trimEnd (l ++ b) = trimEnd l := by
  rw [trimEnd, trimEnd, List.reverse_append,
    List.dropWhile_append_of_pos (List.all_eq_true.1 (allBlank_reverse hb))]

/-- Blanks around a text are trimmed off. -/
theorem trim_surrounded {b b' : List Char} (hb : allBlank b) (hb' : allBlank b') (l : List Char) :
    trim (b ++ (l ++ b')) = trim l := by
  rw [trim, trimStart_append_of_allBlank hb, trimStart, List.dropWhile_append]
  split
  · next hempty =>
    have hl : trimStart l = [] := List.isEmpty_iff.1 hempty
    have hb'' : b'.dropWhile isBlank = [] := List.dropWhile_eq_nil_iff.2 (List.all_eq_true.1 hb')
    rw [trim, hl, hb'']
  · exact trimEnd_append_of_allBlank hb' _

/-- Only blanks are trimmed off. -/
theorem exists_eq_trim (l : List Char) :
    ∃ b b', allBlank b ∧ allBlank b' ∧ l = b ++ (trim l ++ b') := by
  have hstart : l = l.takeWhile isBlank ++ trimStart l := List.takeWhile_append_dropWhile.symm
  have hend : trimStart l =
      trim l ++ ((trimStart l).reverse.takeWhile isBlank).reverse := by
    rw [trim, trimEnd, ← List.reverse_append, List.takeWhile_append_dropWhile,
      List.reverse_reverse]
  refine ⟨l.takeWhile isBlank, ((trimStart l).reverse.takeWhile isBlank).reverse,
    List.all_takeWhile, allBlank_reverse List.all_takeWhile, ?_⟩
  rw [← hend]
  exact hstart

/-- What is made of the pieces of a text does not depend on blanks around the text if it does not
depend on blanks around a piece. -/
theorem map_splitOn_trim {α : Type} {f : List Char → α} {sep : Char} (hsep : isBlank sep = false)
    (hf : ∀ b l b', allBlank b → allBlank b' → f (b ++ (l ++ b')) = f l) (l : List Char) :
    (splitOn sep (trim l)).map f = (splitOn sep l).map f := by
  have hleft : ∀ {b}, allBlank b → ∀ l, f (b ++ l) = f l := fun hb l => by
    simpa using hf _ l [] hb rfl
  have hright : ∀ {b}, allBlank b → ∀ l, f (l ++ b) = f l := fun hb l => by
    simpa using hf [] l _ rfl hb
  have hstart : ∀ {b}, allBlank b → ∀ l, (splitOn sep (b ++ l)).map f = (splitOn sep l).map f := by
    intro b hb l
    rw [splitOn_append_of_not_mem (not_mem_of_allBlank hb hsep)]
    cases splitOn sep l with
    | nil => rfl
    | cons piece pieces => simp [hleft hb]
  have hend : ∀ {b}, allBlank b → ∀ l, (splitOn sep (l ++ b)).map f = (splitOn sep l).map f := by
    intro b hb l
    induction hlength : l.length using Nat.strong_induction_on generalizing l with
    | _ n ih =>
      by_cases hmem : sep ∈ l
      · obtain ⟨before, after, rfl, -⟩ := List.eq_append_cons_of_mem hmem
        have hafter := ih after.length (by simp [← hlength]; omega) after rfl
        rw [List.append_assoc, List.cons_append, splitOn_append_cons, splitOn_append_cons,
          List.map_append, List.map_append, hafter]
      · have hmem' : sep ∉ l ++ b := by
          simpa [hmem] using not_mem_of_allBlank hb hsep
        rw [splitOn_of_not_mem hmem, splitOn_of_not_mem hmem', List.map_singleton,
          List.map_singleton, hright hb]
  obtain ⟨b, b', hb, hb', hl⟩ := exists_eq_trim l
  conv_rhs => rw [hl, hstart hb, hend hb']

/-! ## Parts of a text -/

theorem hasPart_iff {part l : List Char} : hasPart part l = true ↔ part <:+: l := by
  induction l with
  | nil => simp [hasPart]
  | cons c rest ih =>
    rw [hasPart, Bool.or_eq_true, ih, List.isPrefixOf_iff_prefix, List.infix_cons_iff]

/-- A part without the character is found on either side of it or not at all. -/
theorem hasPart_append_cons {part : List Char} {c : Char} (hpart : c ∉ part) (l l' : List Char) :
    hasPart part (l ++ c :: l') = (hasPart part l || hasPart part l') := by
  rw [Bool.eq_iff_iff, Bool.or_eq_true, hasPart_iff, hasPart_iff, hasPart_iff]
  constructor
  · intro h
    rcases List.infix_append_iff.1 h with h | h | ⟨l₁, l₂, rfl, h₁, h₂⟩
    · exact .inl h
    · rcases List.infix_cons_iff.1 h with h | h
      · cases part with
        | nil => exact .inl List.nil_infix
        | cons d rest =>
          rw [List.cons_prefix_cons] at h
          exact absurd (h.1 ▸ List.mem_cons_self) hpart
      · exact .inr h
    · cases l₂ with
      | nil => exact .inl (by simpa using h₁.isInfix)
      | cons d rest =>
        rw [List.cons_prefix_cons] at h₂
        exact absurd (h₂.1 ▸ by simp) hpart
  · rintro (h | h)
    · exact h.trans (List.prefix_append _ _).isInfix
    · exact h.trans ((List.suffix_cons _ _).trans (List.suffix_append _ _)).isInfix

end TraceWeave.Text
