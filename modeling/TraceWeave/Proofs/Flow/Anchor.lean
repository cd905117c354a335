import TraceWeave.Flow.Anchor
import Mathlib.Tactic.Common

/-!
# Where anchors stand

The anchor of a line in a body is one of its instructions, and it carries the line exactly if some
instruction of the body does (`AnchorFinder.exists_instr_of_find?`).
-/

namespace TraceWeave

namespace FlowGraph

theorem nodes_addEdge (g : FlowGraph) (e : Label × Label) : (g.addEdge e).nodes = g.nodes := by
  unfold addEdge
  split <;> rfl

theorem nodes_ofBody (b : Body) :
    (ofBody b).nodes = b.instrs.map fun i => (i.label, i.sourceLine?) := by
  have hfold : ∀ (l : List (Label × Label)) (g : FlowGraph),
      (l.foldl addEdge g).nodes = g.nodes := by
    intro l
    induction l with
    | nil => exact fun _ => rfl
    | cons e rest ih => exact fun g => (ih _).trans (nodes_addEdge g e)
  exact hfold _ _

end FlowGraph

theorem LineIndex.firstAt?_ofBody (b : Body) (line : UInt32) :
    (LineIndex.ofBody b).firstAt? line =
      (b.instrs.find? fun i => i.sourceLine? = some line).map (·.label) := by
  unfold firstAt? ofBody
  induction b.instrs with
  | nil => rfl
  | cons i rest ih =>
    cases hline : i.sourceLine? with
    | none =>
      rw [List.find?_cons_of_neg (by simp [hline]), ← ih,
        List.filterMap_cons_none (by simp [hline])]
    | some n =>
      rw [List.filterMap_cons_some (b := (n, i.label)) (by simp [hline])]
      by_cases hn : n = line
      · rw [List.find?_cons_of_pos (by simp [hn]), List.find?_cons_of_pos (by simp [hline, hn])]
        rfl
      · rw [List.find?_cons_of_neg (by simp [hn]), List.find?_cons_of_neg (by simp [hline, hn])]
        exact ih

namespace AnchorFinder

/-- The anchor is found among the instructions: the first one with the line, or one with another
line. -/
theorem exists_instr_of_find? {b : Body} {line : UInt32} {anchor : Label}
    (h : (ofBody b).find? line = some anchor) :
    ∃ i ∈ b.instrs, i.label = anchor ∧
      (i.sourceLine? = some line ↔ ∃ j ∈ b.instrs, j.sourceLine? = some line) := by
  have hindex : (ofBody b).index = LineIndex.ofBody b := rfl
  have hgraph : (ofBody b).graph = FlowGraph.ofBody b := rfl
  rw [find?, FlowGraph.anchorBy?, hindex, hgraph, LineIndex.firstAt?_ofBody] at h
  cases hexact : b.instrs.find? fun i => i.sourceLine? = some line with
  | some i =>
    rw [hexact] at h
    have hi := List.mem_of_find?_eq_some hexact
    have hline : i.sourceLine? = some line := by simpa using List.find?_some hexact
    exact ⟨i, hi, by simpa using h, fun _ => ⟨i, hi, hline⟩, fun _ => hline⟩
  | none =>
    rw [hexact] at h
    have hnone : ∀ j ∈ b.instrs, j.sourceLine? ≠ some line := by
      intro j hj
      have := List.find?_eq_none.1 hexact j hj
      simpa using this
    simp only [Option.map_none] at h
    obtain ⟨node, hnode, rfl⟩ := Option.map_eq_some_iff.1 h
    have hmem : node ∈ (FlowGraph.ofBody b).nodes := by
      rcases Option.or_eq_some_iff.1 hnode with hlater | ⟨-, hearlier⟩
      · exact List.mem_of_find?_eq_some hlater
      · exact List.mem_reverse.1 (List.mem_of_find?_eq_some hearlier)
    rw [FlowGraph.nodes_ofBody] at hmem
    obtain ⟨i, hi, rfl⟩ := List.mem_map.1 hmem
    exact ⟨i, hi, rfl, fun hline => absurd hline (hnone i hi),
      fun ⟨j, hj, hline⟩ => absurd hline (hnone j hj)⟩

/-- A line that some instruction carries has an anchor. -/
theorem isSome_find? {b : Body} {line : UInt32} {i : Instr} (hi : i ∈ b.instrs)
    (hline : i.sourceLine? = some line) : ((ofBody b).find? line).isSome := by
  have hindex : (ofBody b).index = LineIndex.ofBody b := rfl
  rw [find?, FlowGraph.anchorBy?, hindex, LineIndex.firstAt?_ofBody]
  cases hexact : b.instrs.find? fun i => i.sourceLine? = some line with
  | some j => rfl
  | none => exact absurd hline (by simpa using List.find?_eq_none.1 hexact i hi)

end AnchorFinder

end TraceWeave
