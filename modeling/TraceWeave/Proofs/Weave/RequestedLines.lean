import TraceWeave.Proofs.Selection.LineSet
import TraceWeave.Proofs.Weave.Product

/-!
# Requested lines

The product weaver has to do with a requested line in a body if the line is near one that an
instruction of the body has (`Product.mem_linesIn`).
-/

namespace TraceWeave

theorem mem_insertAscending {α : Type} [LT α] [DecidableLT α] [DecidableEq α] {a x : α}
    {l : List α} : x ∈ insertAscending a l ↔ x = a ∨ x ∈ l := by
  induction l with
  | nil => simp [insertAscending]
  | cons b rest ih =>
    unfold insertAscending
    split
    · simp
    · split
      · next h => simp [h]
      · simp only [List.mem_cons, ih]
        tauto

theorem mem_ascending {α : Type} [LT α] [DecidableLT α] [DecidableEq α] {x : α} {l : List α} :
    x ∈ ascending l ↔ x ∈ l := by
  unfold ascending
  induction l with
  | nil => simp
  | cons a rest ih => rw [List.foldr_cons, mem_insertAscending, ih, List.mem_cons]

theorem Body.mem_lines {b : Body} {n : UInt32} :
    n ∈ b.lines ↔ ∃ i ∈ b.instrs, i.sourceLine? = some n := by
  rw [lines, mem_ascending, List.mem_filterMap]

namespace Product

theorem distance_self (n : UInt32) : distance n n = 0 := by simp [distance]

theorem mem_linesIn {settings : Settings} {selection : LineSelection} {target : MethodTarget}
    {b : Body} {line : UInt32} :
    line ∈ linesIn settings selection target b ↔ productSkip? settings target = none ∧
      line ∈ (selection.linesFor target.file).toList ∧
      ∃ i ∈ b.instrs, ∃ n, i.sourceLine? = some n ∧ distance n line ≤ settings.lineTolerance := by
  unfold linesIn
  cases productSkip? settings target with
  | some reason => simp
  | none =>
    have hempty : (selection.linesFor target.file).isEmpty = true →
        (selection.linesFor target.file).toList = [] := by
      intro h
      rw [LineSet.toList, List.isEmpty_iff.1 h]
      rfl
    have hnear : (b.lines.any fun m => distance m line ≤ settings.lineTolerance) = true ↔
        ∃ i ∈ b.instrs, ∃ n, i.sourceLine? = some n ∧
          distance n line ≤ settings.lineTolerance := by
      simp only [List.any_eq_true, decide_eq_true_eq, Body.mem_lines]
      constructor
      · rintro ⟨n, ⟨i, hi, hn⟩, hdistance⟩
        exact ⟨i, hi, n, hn, hdistance⟩
      · rintro ⟨i, hi, n, hn, hdistance⟩
        exact ⟨n, ⟨i, hi, hn⟩, hdistance⟩
    rw [← hnear]
    change line ∈ matchedLines _ _ _ ↔ _
    unfold matchedLines
    by_cases h : (selection.linesFor target.file).isEmpty
    · simp [h, hempty h]
    · simp [h, List.mem_filter]

/-- A requested line of an instruction is one that the weaver has to do with. -/
theorem mem_linesIn_of_sourceLine? {settings : Settings} {selection : LineSelection}
    {target : MethodTarget} {b : Body} {line : UInt32} {i : Instr}
    (hskip : productSkip? settings target = none)
    (hrequested : line ∈ (selection.linesFor target.file).toList) (hi : i ∈ b.instrs)
    (hline : i.sourceLine? = some line) : line ∈ linesIn settings selection target b :=
  mem_linesIn.2 ⟨hskip, hrequested, i, hi, line, hline, by
    rw [distance_self]
    exact UInt32.zero_le⟩

end Product

end TraceWeave
