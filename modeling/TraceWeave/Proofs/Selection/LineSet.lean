import TraceWeave.Selection.Lines
import Mathlib.Tactic.Common

/-!
# Sets of lines

The list of a set has its lines (`LineSet.mem_toList`).  The runs of a set that is built by
insertions are ascending with gaps between them, because an insertion joins all runs that it touches
(`LineSet.Ascends.insert`).  So the lines that a selection requests for a class are listed in
strictly ascending order (`LineSelection.pairwise_linesFor`).

An insertion adds the lines of its run and no others (`LineSet.mem_insert`), and sets that were
built in different ways are equal if they have the same lines (`LineSet.Ascends.eq_of_lines`): where
a run begins and ends can be read off the lines, because there are gaps between the runs.
-/

namespace TraceWeave

theorem LineRun.mem_iff {r : LineRun} {n : UInt32} :
    n ∈ r ↔ r.first.toNat ≤ n.toNat ∧ n.toNat ≤ r.last.toNat := by
  rw [← UInt32.le_iff_toNat_le, ← UInt32.le_iff_toNat_le]
  rfl

theorem LineRun.mem_toList {r : LineRun} {n : UInt32} : n ∈ r.toList ↔ n ∈ r := by
  have hlast : r.last.toNat < UInt32.size := r.last.toNat_lt
  simp only [toList, List.mem_map, List.mem_range'_1]
  change _ ↔ r.first ≤ n ∧ n ≤ r.last
  rw [UInt32.le_iff_toNat_le, UInt32.le_iff_toNat_le]
  constructor
  · rintro ⟨k, hk, rfl⟩
    rw [UInt32.toNat_ofNat_of_lt' (by omega : k < UInt32.size)]
    omega
  · exact fun h => ⟨n.toNat, by omega, UInt32.ofNat_toNat⟩

theorem LineSet.mem_toList {s : LineSet} {n : UInt32} : n ∈ s.toList ↔ n ∈ s := by
  simp only [toList, List.mem_flatMap, LineRun.mem_toList]
  rfl

/-! ## Order -/

/-- The run has a line. -/
def LineRun.IsProper (r : LineRun) : Prop := r.first ≤ r.last

/-- There is a gap between the first run and the second. -/
def LineRun.Precedes (r s : LineRun) : Prop := r.last.toNat + 1 < s.first.toNat

/-- The runs have lines and are ascending with gaps between them. -/
structure LineRun.Ascend (runs : List LineRun) : Prop where
  proper : ∀ r ∈ runs, r.IsProper
  pairwise : runs.Pairwise LineRun.Precedes

namespace LineRun

theorem toNat_min (m n : UInt32) : (min m n).toNat = min m.toNat n.toNat := by
  rw [show min m n = if m ≤ n then m else n from rfl]
  split
  · next h => exact (Nat.min_eq_left (UInt32.le_iff_toNat_le.1 h)).symm
  · next h =>
    rw [UInt32.le_iff_toNat_le] at h
    omega

theorem toNat_max (m n : UInt32) : (max m n).toNat = max m.toNat n.toNat := by
  rw [show max m n = if m ≤ n then n else m from rfl]
  split
  · next h => exact (Nat.max_eq_right (UInt32.le_iff_toNat_le.1 h)).symm
  · next h =>
    rw [UInt32.le_iff_toNat_le] at h
    omega

/-- What comes before a run and before some others comes before all when it is inserted. -/
theorem lt_first_insertRun {n : Nat} {r : LineRun} {runs : List LineRun} (hr : n < r.first.toNat)
    (hruns : ∀ s ∈ runs, n < s.first.toNat) :
    ∀ s ∈ LineSet.insertRun r runs, n < s.first.toNat := by
  induction runs generalizing r with
  | nil =>
    intro s hs
    rwa [List.mem_singleton.1 hs]
  | cons t rest ih =>
    have ht := hruns t (by simp)
    have hrest : ∀ s ∈ rest, n < s.first.toNat := fun s hs => hruns s (by simp [hs])
    unfold LineSet.insertRun
    split
    · intro s hs
      rcases List.mem_cons.1 hs with rfl | hs
      · exact hr
      · exact hruns s hs
    · split
      · intro s hs
        rcases List.mem_cons.1 hs with rfl | hs
        · exact ht
        · exact ih hr hrest s hs
      · refine ih ?_ hrest
        rw [toNat_min]
        omega

theorem Ascend.insertRun {r : LineRun} {runs : List LineRun} (hr : r.IsProper)
    (h : Ascend runs) : Ascend (LineSet.insertRun r runs) := by
  induction runs generalizing r with
  | nil => exact ⟨by simpa [LineSet.insertRun] using hr, List.pairwise_singleton _ _⟩
  | cons t rest ih =>
    obtain ⟨hproper, hpairwise⟩ := h
    have ht : t.IsProper := hproper t (by simp)
    obtain ⟨hgap, hpairwise'⟩ := List.pairwise_cons.1 hpairwise
    have hrest : Ascend rest := ⟨fun s hs => hproper s (by simp [hs]), hpairwise'⟩
    unfold LineSet.insertRun
    split
    · next hbefore =>
      refine ⟨List.forall_mem_cons.2 ⟨hr, hproper⟩,
        List.pairwise_cons.2 ⟨fun s hs => ?_, hpairwise⟩⟩
      rcases List.mem_cons.1 hs with rfl | hs
      · exact hbefore
      · have hnext := hgap s hs
        have htproper := UInt32.le_iff_toNat_le.1 ht
        unfold Precedes at hnext ⊢
        omega
    · split
      · next hafter =>
        obtain ⟨hproper', hpairwise'⟩ := ih hr hrest
        exact ⟨List.forall_mem_cons.2 ⟨ht, hproper'⟩, List.pairwise_cons.2
          ⟨lt_first_insertRun hafter hgap, hpairwise'⟩⟩
      · refine ih ?_ hrest
        have hrproper := UInt32.le_iff_toNat_le.1 hr
        rw [IsProper, UInt32.le_iff_toNat_le, toNat_min, toNat_max]
        omega

theorem pairwise_toList (r : LineRun) : r.toList.Pairwise (· < ·) := by
  rw [toList, List.pairwise_map]
  have hlast : r.last.toNat < UInt32.size := r.last.toNat_lt
  refine (List.pairwise_lt_range' 1).imp_of_mem fun {m n} hm hn hlt => ?_
  rw [List.mem_range'_1] at hm hn
  rw [UInt32.lt_iff_toNat_lt, UInt32.toNat_ofNat_of_lt' (by omega : m < UInt32.size),
    UInt32.toNat_ofNat_of_lt' (by omega : n < UInt32.size)]
  exact hlt

end LineRun

namespace LineSet

/-- The runs of the set are in order. -/
def Ascends (s : LineSet) : Prop := LineRun.Ascend s.runs

theorem ascends_empty : (∅ : LineSet).Ascends := ⟨by simp [EmptyCollection.emptyCollection], .nil⟩

namespace Ascends

variable {s t : LineSet}

theorem insert (h : s.Ascends) (r : LineRun) : (s.insert r).Ascends := by
  unfold LineSet.insert
  split
  · next hproper => exact LineRun.Ascend.insertRun hproper h
  · exact h

theorem foldr_insert (h : t.Ascends) (runs : List LineRun) :
    (runs.foldr LineSet.insert t).Ascends := by
  induction runs with
  | nil => exact h
  | cons r rest ih => exact ih.insert r

theorem union (s : LineSet) (h : t.Ascends) : (s.union t).Ascends := h.foldr_insert s.runs

/-- The lines of a set whose runs are in order are listed in order. -/
theorem pairwise_toList (h : s.Ascends) : s.toList.Pairwise (· < ·) := by
  rw [toList, List.pairwise_flatMap]
  refine ⟨fun r _ => r.pairwise_toList, h.pairwise.imp fun {r r'} hgap m hm n hn => ?_⟩
  have hlast := UInt32.le_iff_toNat_le.1 (LineRun.mem_toList.1 hm).2
  have hfirst := UInt32.le_iff_toNat_le.1 (LineRun.mem_toList.1 hn).1
  unfold LineRun.Precedes at hgap
  rw [UInt32.lt_iff_toNat_lt]
  omega

end Ascends

end LineSet

namespace LineSelection

theorem ascends_foldr_union (entries : List (String × LineSet)) :
    (entries.foldr (fun e (lines : LineSet) => e.2.union lines) ∅).Ascends := by
  induction entries with
  | nil => exact LineSet.ascends_empty
  | cons e rest ih => exact LineSet.Ascends.union e.2 ih

/-- The lines requested for a class are listed in strictly ascending order. -/
theorem pairwise_linesFor (selection : LineSelection) (sourcePath : String) :
    (selection.linesFor sourcePath).toList.Pairwise (· < ·) :=
  LineSet.Ascends.pairwise_toList (ascends_foldr_union _)

end LineSelection

/-! ## Lines -/

namespace LineRun

/-- Two runs without a gap between them have the lines of the run from the lesser first line to the
greater last one. -/
theorem mem_join {r s : LineRun} (hrs : ¬ r.Precedes s) (hsr : ¬ s.Precedes r) {n : UInt32} :
    n ∈ LineRun.mk (min r.first s.first) (max r.last s.last) ↔ n ∈ r ∨ n ∈ s := by
  rw [Precedes] at hrs hsr
  rw [mem_iff, mem_iff, mem_iff, toNat_min, toNat_max]
  omega

theorem mem_insertRun {r : LineRun} {runs : List LineRun} (hr : r.IsProper) (h : Ascend runs)
    {n : UInt32} : (∃ s ∈ LineSet.insertRun r runs, n ∈ s) ↔ n ∈ r ∨ ∃ s ∈ runs, n ∈ s := by
  induction runs generalizing r with
  | nil => simp [LineSet.insertRun]
  | cons t rest ih =>
    have ht : t.IsProper := h.proper t (by simp)
    have hrest : Ascend rest := ⟨fun s hs => h.proper s (by simp [hs]), h.pairwise.of_cons⟩
    unfold LineSet.insertRun
    split
    · simp
    · next hrt =>
      split
      · simp only [List.mem_cons, exists_eq_or_imp, ih hr hrest]
        tauto
      · next htr =>
        have hjoined : (LineRun.mk (min r.first t.first) (max r.last t.last)).IsProper := by
          rw [IsProper, UInt32.le_iff_toNat_le, toNat_min, toNat_max]
          rw [IsProper, UInt32.le_iff_toNat_le] at hr
          omega
        simp only [ih hjoined hrest, mem_join hrt htr, List.mem_cons, exists_eq_or_imp, or_assoc]

/-- No line of a set comes before the first line of its first run. -/
theorem Ascend.first_le {r : LineRun} {runs : List LineRun} (h : Ascend (r :: runs)) {n : UInt32}
    (hn : ∃ s ∈ r :: runs, n ∈ s) : r.first.toNat ≤ n.toNat := by
  obtain ⟨s, hs, hn⟩ := hn
  have hproper := UInt32.le_iff_toNat_le.1 (h.proper r List.mem_cons_self)
  have hfirst := (mem_iff.1 hn).1
  rcases List.mem_cons.1 hs with rfl | hs
  · exact hfirst
  · have hgap := (List.pairwise_cons.1 h.pairwise).1 s hs
    rw [Precedes] at hgap
    omega

/-- The lines of the later runs come after the first run, with a gap. -/
theorem Ascend.last_lt {r : LineRun} {runs : List LineRun} (h : Ascend (r :: runs)) {n : UInt32}
    (hn : ∃ s ∈ runs, n ∈ s) : r.last.toNat + 1 < n.toNat := by
  obtain ⟨s, hs, hn⟩ := hn
  exact Nat.lt_of_lt_of_le ((List.pairwise_cons.1 h.pairwise).1 s hs) (mem_iff.1 hn).1

/-- If two first runs begin together, and all lines of the second set are in the first one, the
second run does not reach further than the first. -/
theorem Ascend.last_le {r r' : LineRun} {runs runs' : List LineRun} (h : Ascend (r :: runs))
    (hfirst : r.first = r'.first)
    (hlines : ∀ n, (∃ s ∈ r' :: runs', n ∈ s) → ∃ s ∈ r :: runs, n ∈ s) :
    r'.last.toNat ≤ r.last.toNat := by
  by_contra hlt
  have hsize : r'.last.toNat < UInt32.size := r'.last.toNat_lt
  have hnext : (UInt32.ofNat (r.last.toNat + 1)).toNat = r.last.toNat + 1 :=
    UInt32.toNat_ofNat_of_lt' (by omega)
  have hproper := UInt32.le_iff_toNat_le.1 (h.proper r List.mem_cons_self)
  have hmem : UInt32.ofNat (r.last.toNat + 1) ∈ r' := by
    rw [mem_iff, hnext, ← hfirst]
    omega
  obtain ⟨s, hs, hn⟩ := hlines _ ⟨r', List.mem_cons_self, hmem⟩
  rcases List.mem_cons.1 hs with rfl | hs
  · have := (mem_iff.1 hn).2
    omega
  · have := h.last_lt ⟨s, hs, hn⟩
    omega

/-- The lines of a set determine its runs. -/
theorem Ascend.eq_of_lines {runs runs' : List LineRun} (h : Ascend runs) (h' : Ascend runs')
    (hlines : ∀ n, (∃ s ∈ runs, n ∈ s) ↔ ∃ s ∈ runs', n ∈ s) : runs = runs' := by
  have hhas : ∀ {r : LineRun} {rest : List LineRun}, Ascend (r :: rest) →
      ∃ s ∈ r :: rest, r.first ∈ s := fun {r _} h =>
    ⟨r, List.mem_cons_self, UInt32.le_refl _, h.proper r List.mem_cons_self⟩
  induction runs generalizing runs' with
  | nil =>
    cases runs' with
    | nil => rfl
    | cons r' rest' =>
      obtain ⟨s, hs, -⟩ := (hlines _).2 (hhas h')
      cases hs
  | cons r rest ih =>
    cases runs' with
    | nil =>
      obtain ⟨s, hs, -⟩ := (hlines _).1 (hhas h)
      cases hs
    | cons r' rest' =>
      have hfirst : r.first = r'.first := UInt32.toNat_inj.1
        (Nat.le_antisymm (h.first_le ((hlines _).2 (hhas h')))
          (h'.first_le ((hlines _).1 (hhas h))))
      have hlast : r.last = r'.last := UInt32.toNat_inj.1
        (Nat.le_antisymm (h'.last_le hfirst.symm fun n => (hlines n).1)
          (h.last_le hfirst fun n => (hlines n).2))
      have heq : r = r' := by
        cases r
        cases r'
        simp_all
      subst heq
      have hmore : ∀ {runs : List LineRun}, Ascend (r :: runs) → ∀ n,
          (∃ s ∈ runs, n ∈ s) ↔ (∃ s ∈ r :: runs, n ∈ s) ∧ r.last.toNat < n.toNat := by
        intro runs h n
        simp only [List.mem_cons, exists_eq_or_imp]
        constructor
        · exact fun hn => ⟨.inr hn, by have := h.last_lt hn; omega⟩
        · rintro ⟨hn | hn, hlt⟩
          · exact absurd (mem_iff.1 hn).2 (Nat.not_le.2 hlt)
          · exact hn
      rw [ih ⟨fun s hs => h.proper s (by simp [hs]), h.pairwise.of_cons⟩
        ⟨fun s hs => h'.proper s (by simp [hs]), h'.pairwise.of_cons⟩ fun n => by
          rw [hmore h, hmore h', hlines]]

end LineRun

namespace LineSet

variable {s t : LineSet} {n : UInt32}

theorem not_mem_empty (n : UInt32) : n ∉ (∅ : LineSet) := fun ⟨_, h, _⟩ => by cases h

theorem mem_insert (h : s.Ascends) (r : LineRun) : n ∈ s.insert r ↔ n ∈ r ∨ n ∈ s := by
  unfold LineSet.insert
  split
  · next hr => exact LineRun.mem_insertRun hr h
  · next hr =>
    refine ⟨.inr, fun hn => hn.resolve_left fun hmem => hr ?_⟩
    exact UInt32.le_trans hmem.1 hmem.2

theorem mem_foldr_insert (h : t.Ascends) (runs : List LineRun) :
    n ∈ runs.foldr insert t ↔ (∃ r ∈ runs, n ∈ r) ∨ n ∈ t := by
  induction runs with
  | nil => simp
  | cons r rest ih =>
    simp only [List.foldr_cons, mem_insert (h.foldr_insert rest), ih, List.mem_cons,
      exists_eq_or_imp, or_assoc]

theorem mem_union (s : LineSet) (h : t.Ascends) : n ∈ s.union t ↔ n ∈ s ∨ n ∈ t :=
  mem_foldr_insert h s.runs

/-- A set that is put together from runs has the lines of the runs. -/
theorem mem_ofRuns {runs : List LineRun} : n ∈ ofRuns runs ↔ ∃ r ∈ runs, n ∈ r := by
  rw [ofRuns, mem_foldr_insert ascends_empty]
  exact or_iff_left (not_mem_empty n)

/-- Sets with the same lines are the same. -/
theorem Ascends.eq_of_lines (h : s.Ascends) (h' : t.Ascends) (hlines : ∀ n, n ∈ s ↔ n ∈ t) :
    s = t := by
  cases s
  cases t
  exact congrArg LineSet.mk (LineRun.Ascend.eq_of_lines h h' hlines)

end LineSet

end TraceWeave
