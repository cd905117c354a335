import TraceWeave.Proofs.Flow.Contraction
import TraceWeave.Proofs.Machine.Walks
import TraceWeave.Flow.Anchor

/-!
# Runs follow the graph

The graph of a body and the machine read the body in two ways: the graph by labels, the machine by
positions.  They agree: from one instruction to the next, a walk through the body follows an edge of
its graph (`Body.Walks.isChain_edge`), so it stays among the labels that the entry leads to.  Hence
whatever is not reachable is never executed, and the two searches that look for anchors mean the
same by reachable (`FlowGraph.reaches_iff`).  `FlowGraph.ofBody_covers_runs` puts this together for
every run of every body.
-/

namespace TraceWeave

namespace FlowGraph

variable {g : FlowGraph} {l l' : Label}

/-- The search for one label and the search for all labels agree. -/
theorem reaches_iff : g.reaches l = true ↔ l ∈ g.reachable :=
  reaches_iff_reachable.trans mem_reachable_iff.symm

/-- What an edge leads to from a reachable label is reachable. -/
theorem Edge.mem_reachable (hedge : g.Edge l l') (hl : l ∈ g.reachable) : l' ∈ g.reachable :=
  mem_reachable_iff.2 ((mem_reachable_iff.1 hl).edge hedge)

end FlowGraph

namespace Body

variable {b : Body} {position position' : Nat} {l : Label} {labels : List Label} {fails : Bool}

/-- When control goes on from one position to another, it follows an edge of the graph. -/
theorem edge_of_goesOn {i : Instr} {frame : Frame} (hi : b.instrs[position]? = some i)
    (hgoes : i.op.GoesOn b position (.next frame position'))
    (hl : b.labels[position']? = some l) : (FlowGraph.ofBody b).Edge i.label l := by
  refine FlowGraph.edge_ofBody_iff.2 ⟨position, i, hi, rfl, ?_⟩
  cases hgoes with
  | step hterminator => exact .inr ⟨hterminator, getElem?_labels_eq_some.1 hl⟩
  | jump htarget hposition =>
    rw [getElem?_of_jumpPosition? hposition, Option.some.injEq] at hl
    exact .inl (hl ▸ htarget)

/-- From one instruction to the next, a walk follows an edge of the graph. -/
theorem Walks.isChain_edge (h : b.Walks position labels fails) :
    labels.IsChain (FlowGraph.ofBody b).Edge := by
  induction h with
  | stuck => exact .nil
  | fallOff hend => exact .nil
  | fail hi => exact .singleton _
  | finish hi hreturn => exact .singleton _
  | @step position position' frame i labels fails hi hgoes hrest ih =>
    cases labels with
    | nil => exact .singleton _
    | cons l labels => exact .cons_cons (edge_of_goesOn hi hgoes hrest.getElem?_position) ih

/-- A property that edges carry on holds of all that a walk comes to. -/
theorem Walks.forall_mem {P : Label → Prop}
    (hedges : ∀ l l', (FlowGraph.ofBody b).Edge l l' → P l → P l')
    (h : b.Walks position labels fails) (hfirst : ∀ l, b.labels[position]? = some l → P l) :
    ∀ l ∈ labels, P l := by
  induction h with
  | stuck => simp
  | fallOff hend => simp
  | fail hi => simpa using hfirst _ (getElem?_labels hi)
  | finish hi hreturn => simpa using hfirst _ (getElem?_labels hi)
  | step hi hgoes hrest ih =>
    have hi' := hfirst _ (getElem?_labels hi)
    exact List.forall_mem_cons.2
      ⟨hi', ih fun l hl => hedges _ _ (edge_of_goesOn hi hgoes hl) hi'⟩

end Body

/-- A run of a body goes along a graph. -/
structure Run.GoesAlong (run : Run) (g : FlowGraph) : Prop where
  /-- The first instruction that is executed is the only entry. -/
  entry : ∀ l ∈ run.labels.head?, g.entries = [l]
  /-- From each instruction to the one that is executed next there is an edge. -/
  edges : run.labels.IsChain g.Edge
  /-- All instructions that are executed are reachable. -/
  reachable : ∀ l ∈ run.labels, l ∈ g.reachable

/-- What a walk from the entry comes to is reachable. -/
theorem Body.Walks.mem_reachable {b : Body} {labels : List Label} {fails : Bool}
    (h : b.Walks 0 labels fails) : ∀ l ∈ labels, l ∈ (FlowGraph.ofBody b).reachable := by
  refine h.forall_mem (fun _ _ hedge => hedge.mem_reachable) fun l hl => ?_
  rw [FlowGraph.mem_reachable_iff]
  exact .of_mem_entries (FlowGraph.mem_entries_ofBody.2 (getElem?_labels_eq_some.1 hl))

/-- The graph of a body is sound for execution.  Whatever the calls in it do and wherever it stops,
a run of the body from its entry comes to what the machine comes to and goes along the graph; and no
instruction is executed that one of the searches for anchors takes for unreachable. -/
theorem FlowGraph.ofBody_covers_runs (b : Body) (limit : Nat) (call : Call) (rounds : Nat)
    (frame : Frame) (state : MachineState) :
    (b.watch limit call rounds frame 0 state).result =
        b.runFrom limit call rounds frame 0 state ∧
      (b.watch limit call rounds frame 0 state).GoesAlong (ofBody b) ∧
      ∀ l, (AnchorFinder.ofBody b).reachable.contains l = false ∨ (ofBody b).reaches l = false →
        l ∉ (b.watch limit call rounds frame 0 state).labels := by
  have hwalks := b.walks_watch limit call rounds frame 0 state
  refine ⟨b.result_watch limit call rounds frame 0 state, ⟨fun l hl => ?_, hwalks.isChain_edge,
    hwalks.mem_reachable⟩, fun l hrejected hl => ?_⟩
  · obtain ⟨rest, hlabels⟩ := List.head?_eq_some_iff.1 hl
    rw [hlabels] at hwalks
    obtain ⟨i, hi, rfl⟩ := Body.getElem?_labels_eq_some.1 hwalks.getElem?_position
    rw [entries_ofBody, List.head?_eq_getElem?, hi]
    rfl
  · have hreachable := hwalks.mem_reachable l hl
    rcases hrejected with hfinder | hsearch
    · rw [← Bool.not_eq_true, List.contains_iff_mem] at hfinder
      exact hfinder hreachable
    · rw [reaches_iff.2 hreachable] at hsearch
      cases hsearch

end TraceWeave
