import TraceWeave.Body.Basic
import Mathlib.Data.List.Nodup

/-!
# Consistent bodies

`Body.defect?` searches a body for its first defect.  This file says what it means that there is
none (`defect?_eq_none_iff`): the labels are distinct, and every jump target is one of them.  The
two halves are kept apart because weaving treats them differently: labels only ever get more, so a
label that stands twice stays, while a jump that leads nowhere can come to lead somewhere.
-/

namespace TraceWeave

/-- In a list of distinct members, a member stands at one position. -/
theorem eq_of_getElem?_eq_some {α : Type} {l : List α} (hnodup : l.Nodup) {k k' : Nat} {a : α}
    (h : l[k]? = some a) (h' : l[k']? = some a) : k = k' :=
  (List.getElem?_inj (List.getElem?_eq_some_iff.1 h).1 hnodup).1 (h.trans h'.symm)

namespace Body

theorem getElem?_labels_eq_some {b : Body} {position : Nat} {l : Label} :
    b.labels[position]? = some l ↔ ∃ i, b.instrs[position]? = some i ∧ i.label = l := by
  rw [labels, List.getElem?_map, Option.map_eq_some_iff]

theorem getElem?_labels {b : Body} {position : Nat} {i : Instr}
    (hi : b.instrs[position]? = some i) : b.labels[position]? = some i.label :=
  getElem?_labels_eq_some.2 ⟨i, hi, rfl⟩

/-- The labels that the instructions of a body jump to, in program order. -/
def targets (b : Body) : List Label := b.instrs.filterMap (·.op.target?)

/-- The jump targets that no instruction has. -/
def danglingTargets (b : Body) : List Label := b.targets.filter fun t => t ∉ b.labels

theorem mem_targets {b : Body} {t : Label} :
    t ∈ b.targets ↔ ∃ i ∈ b.instrs, i.op.target? = some t := by
  simp [targets]

theorem mem_danglingTargets {b : Body} {t : Label} :
    t ∈ b.danglingTargets ↔ t ∈ b.targets ∧ t ∉ b.labels := by
  simp [danglingTargets]

theorem firstRepeated?_eq_none_iff {l : List Label} {seen : List Label} :
    firstRepeated? seen l = none ↔ l.Nodup ∧ ∀ x ∈ l, x ∉ seen := by
  induction l generalizing seen with
  | nil => simp [firstRepeated?]
  | cons x rest ih =>
    by_cases hx : x ∈ seen
    · simp [firstRepeated?, hx]
    · rw [firstRepeated?, if_neg hx, ih, List.nodup_cons]
      constructor
      · rintro ⟨hnodup, hseen⟩
        have hrest : x ∉ rest := fun h => hseen x h (by simp)
        refine ⟨⟨hrest, hnodup⟩, ?_⟩
        intro y hy
        rcases List.mem_cons.1 hy with rfl | hy
        · exact hx
        · exact fun h => hseen y hy (by simp [h])
      · rintro ⟨⟨hrest, hnodup⟩, hseen⟩
        refine ⟨hnodup, fun y hy => ?_⟩
        rw [List.mem_cons, not_or]
        exact ⟨fun h => hrest (h ▸ hy), hseen y (by simp [hy])⟩

theorem firstDangling?_eq_none_iff {b : Body} :
    b.firstDangling? = none ↔ ∀ t ∈ b.targets, t ∈ b.labels := by
  rw [firstDangling?, List.findSome?_eq_none_iff]
  constructor
  · intro h t ht
    obtain ⟨i, hi, htarget⟩ := mem_targets.1 ht
    have := h i hi
    rw [htarget] at this
    by_contra hmem
    simp [hmem] at this
  · intro h i hi
    cases htarget : i.op.target? with
    | none => rfl
    | some t => simp [h t (mem_targets.2 ⟨i, hi, htarget⟩)]

/-- A body is consistent exactly if its labels are distinct and every jump lands inside it. -/
theorem defect?_eq_none_iff {b : Body} :
    b.defect? = none ↔ b.labels.Nodup ∧ ∀ t ∈ b.targets, t ∈ b.labels := by
  have hrepeated : firstRepeated? [] b.labels = none ↔ b.labels.Nodup := by
    simp [firstRepeated?_eq_none_iff]
  rw [← hrepeated, ← firstDangling?_eq_none_iff, defect?]
  cases firstRepeated? [] b.labels <;> cases b.firstDangling? <;> simp

theorem labels_nodup_of_defect? {b : Body} (h : b.defect? = none) : b.labels.Nodup :=
  (defect?_eq_none_iff.1 h).1

end Body

end TraceWeave
