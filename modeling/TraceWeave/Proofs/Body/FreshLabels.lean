import TraceWeave.Proofs.Body.Consistency
import Mathlib.Data.List.Perm.Subperm

/-!
# Fresh labels

A new instruction gets one more than the greatest label, or, when there is no greater one, the least
label that is not in use.  Either way the label is new, as long as not all of them are taken
(`Body.nextLabel_not_mem`).  So an insertion keeps labels distinct, and so does any number of
insertions that ends with no more instructions than there are labels (`Body.Enlarges`).
-/

namespace TraceWeave

namespace Body

/-- Among more numbers than a list has, one is not in it. -/
theorem leastUnused_spec (used : List Nat) :
    leastUnused used ∉ used ∧ leastUnused used ≤ used.length := by
  have hsome : ∃ n, (List.range (used.length + 1)).find? (fun n => !used.contains n) = some n := by
    rw [← Option.isSome_iff_exists, List.find?_isSome]
    by_contra hnone
    have hall : List.range (used.length + 1) ⊆ used := by
      intro n hn
      by_contra hmem
      exact hnone ⟨n, hn, by simpa using hmem⟩
    have hlength := (List.subperm_of_subset List.nodup_range hall).length_le
    rw [List.length_range] at hlength
    omega
  obtain ⟨n, hn⟩ := hsome
  have hleast : leastUnused used = n := by rw [leastUnused, hn, Option.getD_some]
  have hfree := List.find?_some hn
  have hrange := List.mem_range.1 (List.mem_of_find?_eq_some hn)
  rw [hleast]
  exact ⟨by simpa using hfree, by omega⟩

/-- While there are labels left, the next one is new. -/
theorem nextLabel_not_mem {b : Body} (h : b.size < UInt32.size) : b.nextLabel ∉ b.labels := by
  set used := b.instrs.map (·.label.number.toNat) with hused
  have hlength : used.length = b.size := by rw [hused, List.length_map, size]
  have hnew {n : Nat} (hlt : n < UInt32.size) (hn : n ∉ used) :
      (⟨.ofNat n⟩ : Label) ∉ b.labels := by
    intro hmem
    obtain ⟨i, hi, hlabel⟩ := List.mem_map.1 hmem
    refine hn (List.mem_map.2 ⟨i, hi, ?_⟩)
    rw [hlabel]
    exact UInt32.toNat_ofNat_of_lt' hlt
  unfold nextLabel
  simp only [← hused]
  cases hmax : used.max? with
  | none =>
    have hnone : used = [] := List.max?_eq_none_iff.1 hmax
    exact hnew (n := 0) (by decide) (by simp [hnone])
  | some n =>
    dsimp only
    split
    · next hlt =>
      have hgreatest := (List.max?_eq_some_iff.1 hmax).2
      exact hnew hlt fun hmem => absurd (hgreatest _ hmem) (by omega)
    · obtain ⟨hfree, hle⟩ := leastUnused_spec used
      exact hnew (by omega) hfree

/-- The second body is no smaller, and distinct labels stay distinct if there are enough labels for
it. -/
structure Enlarges (b b' : Body) : Prop where
  size_le : b.size ≤ b'.size
  nodup : b'.size ≤ UInt32.size → b.labels.Nodup → b'.labels.Nodup

namespace Enlarges

variable {b b₁ b₂ : Body}

theorem of_labels_eq (h : b₁.labels = b.labels) : b.Enlarges b₁ := by
  have hsize : b₁.size = b.size := by
    simpa [labels, size] using congrArg List.length h
  exact ⟨Nat.le_of_eq hsize.symm, fun _ hnodup => h ▸ hnodup⟩

theorem trans (h : b.Enlarges b₁) (h₁ : b₁.Enlarges b₂) : b.Enlarges b₂ :=
  ⟨Nat.le_trans h.size_le h₁.size_le, fun hsize hnodup =>
    h₁.nodup hsize (h.nodup (Nat.le_trans h₁.size_le hsize) hnodup)⟩

/-- One more instruction, with the next label. -/
theorem of_perm (h : b₁.labels.Perm (b.nextLabel :: b.labels)) : b.Enlarges b₁ := by
  have hsize : b₁.size = b.size + 1 := by
    simpa [labels, size] using h.length_eq
  refine ⟨by omega, fun hle hnodup => ?_⟩
  rw [h.nodup_iff, List.nodup_cons]
  exact ⟨nextLabel_not_mem (by omega), hnodup⟩

end Enlarges

end Body

end TraceWeave
