import TraceWeave.Proofs.Machine.Guards
import TraceWeave.Proofs.Weave.EditClosed
import TraceWeave.Proofs.Weave.Positions

/-!
# Guards are kept

Every insertion of a weaver puts one instruction between two parts of a body, and turns jumps at
most from the instruction after the new one to the new one itself (`Body.Inserts`).  A block that it
comes into stays a block, one instruction longer, because no jump leads past the new instruction.
So a probe that guards an anchor goes on guarding it, whatever else is woven in
(`Body.keepsGuards_editClosed`).
-/

namespace TraceWeave

theorem Operation.IsStraight.retarget {op : Operation} (h : op.IsStraight) (f : Label → Label) :
    (op.retarget f).IsStraight := by
  rwa [Operation.retarget_of_target?_none (Operation.IsStraight.target?_eq h)]

/-- The second instruction has the label and the jump of the first one, and is straight if that one
is. -/
structure Instr.Resembles (i j : Instr) : Prop where
  label : j.label = i.label
  target? : j.op.target? = i.op.target?
  straight : i.op.IsStraight → j.op.IsStraight

theorem Instr.Resembles.refl (i : Instr) : i.Resembles i := ⟨rfl, rfl, id⟩

namespace Body

/-- The second body is the first with an instruction between two parts of it.  The new instruction
does not jump, and is straight unless it comes last.  Jumps stay as they are, or are turned from the
instruction that comes after the new one to the new one. -/
structure Inserts (b b' : Body) (before after : List Instr) (i : Instr) (f : Label → Label) :
    Prop where
  instrs : b.instrs = before ++ after
  instrs' : b'.instrs = before.map (Instr.retarget f) ++ i :: after.map (Instr.retarget f)
  target? : i.op.target? = none
  straight : after ≠ [] → i.op.IsStraight
  turns : ∀ t, f t = t ∨ f t = i.label ∧ ∃ j rest, after = j :: rest ∧ j.label = t

/-- Where a position goes when there is an insertion at position `n`. -/
def moved (n position : Nat) : Nat := if position < n then position else position + 1

theorem moved_lt_moved {n position position' : Nat} :
    moved n position < moved n position' ↔ position < position' := by
  unfold moved
  split_ifs <;> omega

theorem moved_le_moved {n position position' : Nat} :
    moved n position ≤ moved n position' ↔ position ≤ position' := by
  rw [← Nat.not_lt, moved_lt_moved, Nat.not_lt]

theorem moved_lt_iff {n position : Nat} : moved n position < n ↔ position < n := by
  unfold moved
  split_ifs <;> omega

namespace Inserts

variable {b b' : Body} {before after : List Instr} {i : Instr} {f : Label → Label}
  (h : b.Inserts b' before after i f)

include h

theorem getElem?_new : b'.instrs[before.length]? = some i := by
  rw [h.instrs', List.getElem?_append_right (by simp)]
  simp

theorem getElem?_moved {position : Nat} {j : Instr} (hj : b.instrs[position]? = some j) :
    b'.instrs[moved before.length position]? = some (j.retarget f) := by
  rw [h.instrs] at hj
  rw [h.instrs', moved]
  split
  · next hlt =>
    rw [List.getElem?_append_left hlt] at hj
    rw [List.getElem?_append_left (by simpa using hlt), List.getElem?_map, hj, Option.map_some]
  · next hge =>
    rw [List.getElem?_append_right (by omega)] at hj
    rw [List.getElem?_append_right (by simp; omega), List.length_map,
      Nat.sub_add_comm (by omega), List.getElem?_cons_succ, List.getElem?_map, hj, Option.map_some]

/-- Whatever stands in the second body is the new instruction or was there before. -/
theorem eq_or_moved {position : Nat} {j : Instr} (hj : b'.instrs[position]? = some j) :
    position = before.length ∧ j = i ∨ ∃ position₀ j₀, position = moved before.length position₀ ∧
      b.instrs[position₀]? = some j₀ ∧ j = j₀.retarget f := by
  have hlt : position < before.length + (after.length + 1) := by
    have := (List.getElem?_eq_some_iff.1 hj).1
    rw [h.instrs'] at this
    simpa using this
  by_cases hnew : position = before.length
  · subst hnew
    exact .inl ⟨rfl, Option.some.inj (hj.symm.trans h.getElem?_new)⟩
  · -- The position is the one to which another was moved.
    set position₀ := if position < before.length then position else position - 1 with hposition₀
    have hmoved : position = moved before.length position₀ := by
      rw [moved]
      split_ifs at hposition₀ ⊢ <;> omega
    have hlt₀ : position₀ < b.instrs.length := by
      rw [h.instrs, List.length_append]
      split_ifs at hposition₀ <;> omega
    have hj₀ := List.getElem?_eq_getElem hlt₀
    refine .inr ⟨position₀, b.instrs[position₀], hmoved, hj₀, ?_⟩
    rw [hmoved, h.getElem?_moved hj₀] at hj
    exact (Option.some.inj hj).symm

theorem getElem?_labels {position : Nat} {l : Label} (hl : b.labels[position]? = some l) :
    b'.labels[moved before.length position]? = some l := by
  obtain ⟨j, hj, rfl⟩ := getElem?_labels_eq_some.1 hl
  exact getElem?_labels_eq_some.2 ⟨_, h.getElem?_moved hj, rfl⟩

theorem getElem?_labels_new : b'.labels[before.length]? = some i.label :=
  Body.getElem?_labels h.getElem?_new

theorem labels_eq : b'.labels = before.map (·.label) ++ i.label :: after.map (·.label) := by
  rw [labels, h.instrs']
  simp [Function.comp_def]

theorem labels_sublist : b.labels.Sublist b'.labels := by
  rw [h.labels_eq, labels, h.instrs, List.map_append]
  exact (List.sublist_cons_self _ _).append_left _

theorem targets_eq : b'.targets = b.targets.map f := by
  rw [targets, targets, h.instrs, h.instrs']
  simp [List.filterMap_append, List.filterMap_map, List.map_filterMap, Function.comp_def,
    Instr.retarget, h.target?]

theorem label_not_mem (hnodup : b'.labels.Nodup) : i.label ∉ b.labels := by
  rw [h.labels_eq, List.nodup_middle, List.nodup_cons] at hnodup
  rw [labels, h.instrs, List.map_append]
  exact hnodup.1

theorem defect?_eq_none (hnodup : b'.labels.Nodup) (hb : b.defect? = none) : b'.defect? = none := by
  refine defect?_eq_none_iff.2 ⟨hnodup, fun t ht => ?_⟩
  rw [h.targets_eq] at ht
  obtain ⟨t₀, ht₀, rfl⟩ := List.mem_map.1 ht
  rcases h.turns t₀ with hstays | ⟨hturned, -⟩
  · rw [hstays]
    exact h.labels_sublist.subset ((defect?_eq_none_iff.1 hb).2 t₀ ht₀)
  · rw [hturned]
    exact List.mem_of_getElem? h.getElem?_labels_new

/-- A block stays a block. -/
theorem block (hnodup : b'.labels.Nodup) (hb : b.defect? = none) {first stop : Nat}
    (hblock : b.Block first stop) (hstop : stop < b.labels.length) :
    b'.Block (moved before.length first) (moved before.length stop) := by
  refine ⟨moved_le_moved.2 hblock.le, fun position j hfirst hlast hj => ?_,
    fun t ht position hposition => ?_⟩
  · rcases h.eq_or_moved hj with ⟨rfl, rfl⟩ | ⟨position₀, j₀, rfl, hj₀, rfl⟩
    · refine h.straight ?_
      rintro rfl
      rw [labels, List.length_map, h.instrs, List.append_nil] at hstop
      exact absurd (moved_lt_iff.2 hstop) (Nat.lt_asymm hlast)
    · have hstraight := hblock.straight position₀ j₀ (moved_le_moved.1 hfirst)
        (moved_lt_moved.1 hlast) hj₀
      exact Operation.IsStraight.retarget hstraight f
  · have hlabel := getElem?_of_jumpPosition? hposition
    rw [h.targets_eq] at ht
    obtain ⟨t₀, ht₀, rfl⟩ := List.mem_map.1 ht
    obtain ⟨position₀, j₀, hj₀, rfl, hposition₀⟩ := exists_jumpPosition? hb ht₀
    have houtside := hblock.closed _ ht₀ _ hposition₀
    rcases h.turns j₀.label with hstays | ⟨hturned, j, rest, hafter, hj⟩
    · have hmoved := h.getElem?_labels (getElem?_of_jumpPosition? hposition₀)
      rw [hstays] at hlabel
      rw [eq_of_getElem?_eq_some hnodup hlabel hmoved]
      exact houtside.imp moved_le_moved.2 moved_lt_moved.2
    · -- A jump to the instruction after the new one now leads to the new one.
      rw [hturned] at hlabel
      have hnew := eq_of_getElem?_eq_some hnodup hlabel h.getElem?_labels_new
      have hnext : b.instrs[before.length]? = some j := by
        rw [h.instrs, hafter, List.getElem?_append_right (by simp)]
        simp
      have hposition₀ := eq_of_getElem?_eq_some (labels_nodup_of_defect? hb)
        (hj ▸ Body.getElem?_labels hnext) (getElem?_of_jumpPosition? hposition₀)
      rw [← hposition₀, ← Nat.not_lt] at houtside
      rw [hnew, ← Nat.not_lt]
      exact houtside.imp (mt moved_lt_iff.1) moved_lt_iff.2

theorem guards (hnodup : b'.labels.Nodup) (hb : b.defect? = none) {old : List Label}
    (hold : old ⊆ b.labels) {probe anchor : Label} (hguards : b.Guards old probe anchor) :
    b'.Guards old probe anchor := by
  obtain ⟨first, stop, hguards⟩ := hguards
  have hstop := (List.getElem?_eq_some_iff.1 hguards.anchor).1
  refine ⟨moved before.length first, moved before.length stop,
    { lt := moved_lt_moved.2 hguards.lt
      block := h.block hnodup hb hguards.block hstop
      probe := h.getElem?_labels hguards.probe
      anchor := h.getElem?_labels hguards.anchor
      inserted := fun l hl => ?_ }⟩
  obtain ⟨position, hfirst, hlast, hl⟩ := mem_line.1 hl
  obtain ⟨j, hj, rfl⟩ := getElem?_labels_eq_some.1 hl
  rcases h.eq_or_moved hj with ⟨-, rfl⟩ | ⟨position₀, j₀, rfl, hj₀, rfl⟩
  · exact fun hmem => h.label_not_mem hnodup (hold hmem)
  · exact hguards.inserted j₀.label (mem_line.2 ⟨position₀, moved_le_moved.1 hfirst,
      moved_lt_moved.1 hlast, Body.getElem?_labels hj₀⟩)

end Inserts

/-! ## Edits -/

theorem exists_inserts_of_insertBefore? {b b' : Body} {anchor : Label} {op : Operation}
    (hop : op.IsStraight) (h : b.insertBefore? anchor op = some b') :
    ∃ before after i f, b.Inserts b' before after i f := by
  unfold insertBefore? at h
  split at h
  · next hmem =>
    cases h
    -- The first instruction with the label of the anchor.
    set before := b.instrs.takeWhile (·.label ≠ anchor) with hbefore
    cases hafter : b.instrs.dropWhile (·.label ≠ anchor) with
    | nil =>
      obtain ⟨j, hj, hlabel⟩ := List.mem_map.1 hmem
      exact absurd hlabel (by simpa using List.dropWhile_eq_nil_iff.1 hafter j hj)
    | cons j rest =>
      have hj : j.label = anchor := by
        have hhead := List.head?_dropWhile_not (fun i : Instr => decide (i.label ≠ anchor)) b.instrs
        rw [hafter] at hhead
        simpa using hhead
      set f : Label → Label := fun t => if t = anchor then b.nextLabel else t with hf
      have hredirect : Instr.redirect anchor b.nextLabel = Instr.retarget f := by
        funext i
        exact i.redirect_eq_retarget _ _
      refine ⟨before, j :: rest, ⟨b.nextLabel, 0, op⟩, f,
        { instrs := by rw [hbefore, ← hafter, List.takeWhile_append_dropWhile]
          instrs' := ?_
          target? := Operation.IsStraight.target?_eq hop
          straight := fun _ => hop
          turns := fun t => ?_ }⟩
      · rw [hredirect, List.takeWhile_map, List.dropWhile_map, ← hafter, hbefore]
        rfl
      · by_cases ht : t = anchor
        · exact .inr ⟨if_pos ht, j, rest, rfl, hj.trans ht.symm⟩
        · exact .inl (if_neg ht)
  · cases h

theorem retarget_id_eq : Instr.retarget id = id := funext Instr.retarget_id

theorem insertEntry_inserts (b : Body) {op : Operation} (hop : op.IsStraight) :
    b.Inserts (b.insertEntry op) [] b.instrs ⟨b.nextLabel, 0, op⟩ id where
  instrs := rfl
  instrs' := by simp [insertEntry, retarget_id_eq]
  target? := Operation.IsStraight.target?_eq hop
  straight _ := hop
  turns _ := .inl rfl

theorem push_inserts (b : Body) {op : Operation} (hop : op.target? = none) :
    b.Inserts (b.push 0 op) b.instrs [] ⟨b.nextLabel, 0, op⟩ id where
  instrs := (List.append_nil _).symm
  instrs' := by simp [push, retarget_id_eq]
  target? := hop
  straight h := absurd rfl h
  turns _ := .inl rfl

/-- No label is lost or moved past another one.  If labels stay distinct, a consistent body stays
consistent, and what guards an anchor goes on guarding it. -/
structure KeepsGuards (b b' : Body) : Prop where
  labels : b.labels.Sublist b'.labels
  consistent : b'.labels.Nodup → b.defect? = none → b'.defect? = none
  guards : b'.labels.Nodup → b.defect? = none → ∀ {old : List Label}, old ⊆ b.labels →
    ∀ {probe anchor : Label}, b.Guards old probe anchor → b'.Guards old probe anchor

namespace KeepsGuards

variable {b b₁ b₂ : Body}

theorem of_inserts {before after : List Instr} {i : Instr} {f : Label → Label}
    (h : b.Inserts b₁ before after i f) : b.KeepsGuards b₁ :=
  ⟨h.labels_sublist, h.defect?_eq_none, fun hnodup hb _ hold _ _ hguards =>
    h.guards hnodup hb hold hguards⟩

/-- A change of single instructions keeps guards, if they resemble what they were. -/
theorem of_forall₂ (h : List.Forall₂ Instr.Resembles b.instrs b₁.instrs) : b.KeepsGuards b₁ := by
  have hlabels : b₁.labels = b.labels := by
    rw [← List.forall₂_eq_eq_eq, Body.labels, Body.labels, List.forall₂_map_left_iff,
      List.forall₂_map_right_iff]
    exact h.flip.imp fun _ _ hij => hij.label
  have htargets : b₁.targets = b.targets := by
    have hmap : b₁.instrs.map (·.op.target?) = b.instrs.map (·.op.target?) := by
      rw [← List.forall₂_eq_eq_eq, List.forall₂_map_left_iff, List.forall₂_map_right_iff]
      exact h.flip.imp fun _ _ hij => hij.target?
    simpa [targets, List.filterMap_map] using congrArg (List.filterMap id) hmap
  have hconsistent (hb : b.defect? = none) : b₁.defect? = none := by
    rw [defect?_eq_none_iff, hlabels, htargets]
    exact defect?_eq_none_iff.1 hb
  refine ⟨by rw [hlabels], fun _ => hconsistent, fun _ hb _ _ _ _ hguards => ?_⟩
  obtain ⟨first, stop, hguards⟩ := hguards
  refine ⟨first, stop,
    { lt := hguards.lt
      block := ⟨hguards.block.le, fun position j hfirst hstop hj => ?_, fun t ht position hp => ?_⟩
      probe := hlabels ▸ hguards.probe
      anchor := hlabels ▸ hguards.anchor
      inserted := by
        rw [line, hlabels]
        exact hguards.inserted }⟩
  · obtain ⟨i, hi, hij⟩ := exists_getElem?_of_forall₂ h.flip hj
    exact hij.straight (hguards.block.straight position i hfirst hstop hi)
  · have hlabel := getElem?_of_jumpPosition? hp
    rw [htargets] at ht
    obtain ⟨position₀, i, hi, rfl, hp₀⟩ := exists_jumpPosition? hb ht
    rw [hlabels] at hlabel
    rw [eq_of_getElem?_eq_some (labels_nodup_of_defect? hb) hlabel
      (getElem?_of_jumpPosition? hp₀)]
    exact hguards.block.closed _ ht _ hp₀

theorem trans (h : b.KeepsGuards b₁) (h₁ : b₁.KeepsGuards b₂) : b.KeepsGuards b₂ where
  labels := h.labels.trans h₁.labels
  consistent hnodup hb := h₁.consistent hnodup (h.consistent (hnodup.sublist h₁.labels) hb)
  guards hnodup hb _ hold _ _ hguards := by
    have hnodup₁ := hnodup.sublist h₁.labels
    exact h₁.guards hnodup (h.consistent hnodup₁ hb) (List.Subset.trans hold h.labels.subset)
      (h.guards hnodup₁ hb hold hguards)

end KeepsGuards

theorem setCondition_resembles (b : Body) (label : Label) (condition : Expr) :
    List.Forall₂ Instr.Resembles b.instrs (b.setCondition label condition).instrs := by
  refine b.setCondition_forall₂ .refl (fun i => ?_) label
  obtain ⟨label, line, op⟩ := i
  cases op <;> exact ⟨rfl, rfl, id⟩

theorem KeepsGuards.of_insertBefore? {b b' : Body} {anchor : Label} {op : Operation}
    (h : b.insertBefore? anchor op = some b') (hop : op.IsStraight) : b.KeepsGuards b' := by
  obtain ⟨before, after, i, f, hinserts⟩ := exists_inserts_of_insertBefore? hop h
  exact .of_inserts hinserts

/-- Every edit of a weaver keeps guards. -/
theorem keepsGuards_editClosed : EditClosed KeepsGuards where
  refl _ := .of_forall₂ (List.forall₂_same.2 fun i _ => .refl i)
  trans := .trans
  insertProbe h := .of_insertBefore? h trivial
  insertEntry := .of_inserts (insertEntry_inserts _ trivial)
  pushProbe := .of_inserts (push_inserts _ rfl)
  pushReturn := .of_inserts (push_inserts _ rfl)
  setCondition := .of_forall₂ (setCondition_resembles _ _ _)
  hold {b _ _ value} h :=
    have hdeclare : b.KeepsGuards (b.addTemporary value.ty) :=
      .of_forall₂ (List.forall₂_same.2 fun i _ => .refl i)
    hdeclare.trans (.of_insertBefore? h trivial)

end Body

end TraceWeave
