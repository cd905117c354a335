import TraceWeave.Proofs.Body.FreshLabels
import TraceWeave.Proofs.Weave.Script

/-!
# The block before an anchor

Operations that are inserted one after another before the same anchor stand there in one block, in
this order.  The first insertion takes over the jumps to the anchor, and the later ones find none
left (`Instr.redirect_redirect`).  `Body.GainsBlock` says where everything stands afterwards, and
`Body.gainsBlock_insertionClosed` that insertions lead to it.  Nothing is asked of the body but that
there are labels left, so that no new instruction is taken for the anchor.
-/

namespace TraceWeave

theorem Operation.redirect_redirect {old new : Label} (h : new ≠ old) (newer : Label)
    (op : Operation) : (op.redirect old new).redirect old newer = op.redirect old new := by
  have htarget : ∀ t, (if (if t = old then new else t) = old then newer
      else if t = old then new else t) = if t = old then new else t := by
    intro t
    by_cases ht : t = old <;> simp [ht, h]
  cases op <;> simp only [redirect, htarget]

/-- After jumps were turned from a label, there are none left to be turned. -/
theorem Instr.redirect_redirect {old new : Label} (h : new ≠ old) (newer : Label) (i : Instr) :
    (i.redirect old new).redirect old newer = i.redirect old new := by
  rw [redirect, redirect, Operation.redirect_redirect h]

theorem Instr.redirect_self (label : Label) (i : Instr) : i.redirect label label = i := by
  have hid : (fun t => if t = label then label else t) = id :=
    funext fun t => by by_cases ht : t = label <;> simp [ht]
  rw [redirect_eq_retarget, hid, retarget_id]

theorem Instr.redirect_of_target?_none {i : Instr} (h : i.op.target? = none) (old new : Label) :
    i.redirect old new = i := by
  rw [redirect_eq_retarget, retarget, Operation.retarget_of_target?_none h]

namespace Body

/-- Where jumps to an anchor lead once a block stands before it: to its first instruction, if it has
one. -/
def blockStart (anchor : Label) (block : List Instr) : Label :=
  (block.head?.map (·.label)).getD anchor

/-- The second body is the first with a block of new instructions right before the first one that
is labelled as the anchor.  They have new labels and no lines, and jumps to the anchor lead to the
start of the block; everything else is as it was. -/
structure HasBlock (anchor : Label) (block : List Instr) (b b' : Body) : Prop where
  /-- The labels of the block are new. -/
  labels : ∀ j ∈ block, j.label ∉ b.labels
  /-- No source line belongs to the block. -/
  lines : ∀ j ∈ block, j.line = 0
  /-- The block stands before the anchor. -/
  instrs_eq : ∀ before i after, b.instrs = before ++ i :: after → i.label = anchor →
    (∀ j ∈ before, j.label ≠ anchor) →
    b'.instrs = before.map (Instr.redirect anchor (blockStart anchor block)) ++ block ++
      (i :: after).map (Instr.redirect anchor (blockStart anchor block))

/-- The second body is the first with operations inserted before an anchor.  If there are labels
enough for it, the operations stand in a block. -/
structure GainsBlock (anchor : Label) (ops : List Operation) (b b' : Body) : Prop where
  size_eq : b'.size = b.size + ops.length
  straight : ∀ op ∈ ops, op.target? = none
  block : b'.size ≤ UInt32.size → anchor ∈ b.labels →
    ∃ block, block.map (·.op) = ops ∧ HasBlock anchor block b b'

/-- A label that a body has splits it at the first instruction that carries it. -/
theorem exists_split {b : Body} {anchor : Label} (h : anchor ∈ b.labels) :
    ∃ before i after, b.instrs = before ++ i :: after ∧ i.label = anchor ∧
      ∀ j ∈ before, j.label ≠ anchor := by
  obtain ⟨i, hi⟩ : ∃ i, (b.instrs.find? fun i => i.label = anchor) = some i := by
    rw [← Option.isSome_iff_exists, List.find?_isSome]
    obtain ⟨i, hi, hlabel⟩ := List.mem_map.1 h
    exact ⟨i, hi, by simpa using hlabel⟩
  obtain ⟨hlabel, before, after, hsplit, hbefore⟩ := List.find?_eq_some_iff_append.1 hi
  exact ⟨before, i, after, hsplit, by simpa using hlabel, fun j hj => by simpa using hbefore j hj⟩

namespace HasBlock

variable {anchor : Label} {block block' : List Instr} {b b₁ b₂ : Body}

/-- The anchor splits the second body at the same instruction, behind the block. -/
theorem split (h : HasBlock anchor block b b₁) {before after : List Instr} {i : Instr}
    (hsplit : b.instrs = before ++ i :: after) (hi : i.label = anchor)
    (hbefore : ∀ j ∈ before, j.label ≠ anchor) :
    ∀ j ∈ before.map (Instr.redirect anchor (blockStart anchor block)) ++ block,
      j.label ≠ anchor := by
  intro j hj heq
  rcases List.mem_append.1 hj with hj | hj
  · obtain ⟨k, hk, rfl⟩ := List.mem_map.1 hj
    exact hbefore k hk heq
  · refine h.labels j hj ?_
    rw [heq, ← hi, Body.labels, hsplit]
    exact List.mem_map_of_mem (by simp)

theorem labels_subset (h : HasBlock anchor block b b₁) (hanchor : anchor ∈ b.labels) :
    b.labels ⊆ b₁.labels := by
  obtain ⟨before, i, after, hsplit, hi, hbefore⟩ := exists_split hanchor
  have hlabels : ∀ l : List Instr,
      (l.map (Instr.redirect anchor (blockStart anchor block))).map (·.label) =
        l.map (·.label) := fun l => by
    simp [Instr.redirect, Function.comp_def]
  rw [Body.labels, Body.labels, h.instrs_eq before i after hsplit hi hbefore, hsplit,
    List.map_append, List.map_append, List.map_append, hlabels, hlabels]
  intro l hl
  simp only [List.mem_append] at hl ⊢
  tauto

/-- A block is put between another one and the anchor. -/
theorem trans (h : HasBlock anchor block b b₁) (h' : HasBlock anchor block' b₁ b₂)
    (hanchor : anchor ∈ b.labels) (hstraight : ∀ j ∈ block, j.op.target? = none) :
    HasBlock anchor (block ++ block') b b₂ where
  labels j hj := by
    rcases List.mem_append.1 hj with hj | hj
    · exact h.labels j hj
    · exact fun hmem => h'.labels j hj (h.labels_subset hanchor hmem)
  lines j hj := (List.mem_append.1 hj).elim (h.lines j) (h'.lines j)
  instrs_eq before i after hsplit hi hbefore := by
    have hfirst := h.instrs_eq before i after hsplit hi hbefore
    rw [List.map_cons] at hfirst
    rw [h'.instrs_eq _ _ _ hfirst hi (h.split hsplit hi hbefore)]
    have hblock : block.map (Instr.redirect anchor (blockStart anchor block')) = block := by
      rw [List.map_congr_left fun j hj =>
        Instr.redirect_of_target?_none (hstraight j hj) anchor (blockStart anchor block')]
      exact List.map_id' block
    -- The jumps to the anchor are turned once, to the first block that is not empty.
    have hturned : ∀ j : Instr, (j.redirect anchor (blockStart anchor block)).redirect anchor
        (blockStart anchor block') = j.redirect anchor (blockStart anchor (block ++ block')) := by
      intro j
      cases hb : block with
      | nil =>
        rw [List.nil_append, show blockStart anchor [] = anchor from rfl, Instr.redirect_self]
      | cons first rest =>
        have hne : first.label ≠ anchor := fun heq =>
          h.labels first (by simp [hb]) (heq ▸ hanchor)
        exact Instr.redirect_redirect hne _ j
    simp only [List.map_append, List.map_map, List.map_cons, Function.comp_def, hturned, hblock,
      List.append_assoc]

end HasBlock

/-- Insertions before an anchor lead to a block before it. -/
theorem gainsBlock_insertionClosed (anchor : Label) :
    InsertionClosed anchor (GainsBlock anchor) where
  declare := by
    intro b b' h
    refine ⟨by rw [size, size, h, List.length_nil, Nat.add_zero], by simp, fun _ _ => ?_⟩
    refine ⟨[], rfl, by simp, by simp, fun before i after hsplit _ _ => ?_⟩
    have hturn : Instr.redirect anchor (blockStart anchor []) = id :=
      funext fun j => j.redirect_self anchor
    rw [h, hsplit, hturn, List.map_id, List.map_id, List.append_nil]
  insert := by
    intro b b' op hop h
    have hsize : b'.size = b.size + 1 := by
      simpa [labels, size] using (insertBefore?_labels h).2.length_eq
    refine ⟨hsize, by simpa using hop, fun hroom hanchor => ?_⟩
    have hnew : b.nextLabel ∉ b.labels := nextLabel_not_mem (by omega)
    refine ⟨[{ label := b.nextLabel, op }], rfl, by simpa using hnew, by simp, ?_⟩
    intro before i after hsplit hi hbefore
    rw [insertBefore?, if_pos hanchor] at h
    cases h
    have hbefore' : ∀ j ∈ before.map (Instr.redirect anchor b.nextLabel), j.label ≠ anchor := by
      intro j hj
      obtain ⟨k, hk, rfl⟩ := List.mem_map.1 hj
      exact hbefore k hk
    have hi' : (i.redirect anchor b.nextLabel).label = anchor := hi
    simp only [hsplit, List.map_append, List.map_cons]
    rw [List.takeWhile_append_of_pos (by simpa using hbefore'),
      List.dropWhile_append_of_pos (by simpa using hbefore')]
    simp [hi', blockStart]
  trans := by
    intro ops ops' b b₁ b₂ h h'
    refine ⟨by rw [h'.size_eq, h.size_eq, List.length_append, Nat.add_assoc],
      List.forall_mem_append.2 ⟨h.straight, h'.straight⟩, fun hroom hanchor => ?_⟩
    obtain ⟨block, hops, hblock⟩ := h.block (by have := h'.size_eq; omega) hanchor
    obtain ⟨block', hops', hblock'⟩ := h'.block hroom (hblock.labels_subset hanchor hanchor)
    refine ⟨block ++ block', by rw [List.map_append, hops, hops'], hblock.trans hblock' hanchor ?_⟩
    exact fun j hj => h.straight j.op (hops ▸ List.mem_map_of_mem hj)

end Body

end TraceWeave
