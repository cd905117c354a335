import TraceWeave.Weave.Basic
import Mathlib.Data.List.Forall2
import Mathlib.Data.List.Nodup
import Mathlib.Data.List.Perm.Basic

/-!
# Layouts of woven bodies

Weaving changes a body one insertion at a time, and each insertion also turns jumps.  A `Layout`
is the same thing seen at once: the instructions that were there before weaving, each in a `Slot`
with what was woven in before it, and what was woven in at either end of the body.  The jumps of a
slot keep the targets they had before weaving; `Layout.instrs` writes the body out and sends every
jump to the first instruction of the slot that it names.

The results say that the edits of weaving act on layouts slot by slot:
`Layout.insertBefore?_eq` for an insertion before an instruction, `Layout.insertEntry_eq` and
`Layout.push_eq` for the two ends, `Layout.setCondition_eq` for a new condition.  They ask for
distinct labels where they look for an instruction; a body that passes the check after weaving has
them.
-/

namespace TraceWeave

/-! ## Renaming jump targets -/

/-- The operation with its jump target renamed. -/
def Operation.retarget (f : Label → Label) : Operation → Operation
  | .branch condition target => .branch condition (f target)
  | .goto target => .goto (f target)
  | op => op

/-- The instruction with its jump target renamed. -/
def Instr.retarget (f : Label → Label) (i : Instr) : Instr := { i with op := i.op.retarget f }

@[simp] theorem Instr.retarget_label (f : Label → Label) (i : Instr) :
    (i.retarget f).label = i.label := rfl

@[simp] theorem Instr.retarget_sourceLine? (f : Label → Label) (i : Instr) :
    (i.retarget f).sourceLine? = i.sourceLine? := rfl

@[simp] theorem Operation.retarget_target? (f : Label → Label) (op : Operation) :
    (op.retarget f).target? = op.target?.map f := by
  cases op <;> rfl

@[simp] theorem Operation.isTerminator_retarget (f : Label → Label) (op : Operation) :
    (op.retarget f).isTerminator = op.isTerminator := by
  cases op <;> rfl

theorem Operation.redirect_eq_retarget (old new : Label) (op : Operation) :
    op.redirect old new = op.retarget fun t => if t = old then new else t := by
  cases op <;> rfl

theorem Instr.redirect_eq_retarget (old new : Label) (i : Instr) :
    i.redirect old new = i.retarget fun t => if t = old then new else t := by
  rw [Instr.redirect, Instr.retarget, Operation.redirect_eq_retarget]

theorem Operation.retarget_retarget (f g : Label → Label) (op : Operation) :
    (op.retarget f).retarget g = op.retarget (g ∘ f) := by
  cases op <;> rfl

theorem Operation.retarget_of_target?_none {op : Operation} (h : op.target? = none)
    (f : Label → Label) : op.retarget f = op := by
  cases op <;> first | rfl | simp [Operation.target?] at h

theorem Operation.eq_probe_of_retarget {f : Label → Label} {op : Operation} {p : Probe}
    (h : op.retarget f = .probe p) : op = .probe p := by
  cases op <;> first | exact h | cases h

theorem Operation.retarget_id (op : Operation) : op.retarget id = op := by
  cases op <;> rfl

theorem Instr.retarget_id (i : Instr) : i.retarget id = i := by
  rw [Instr.retarget, Operation.retarget_id]

@[simp] theorem Instr.setCondition_label (i : Instr) (condition : Expr) :
    (i.setCondition condition).label = i.label := by
  unfold Instr.setCondition
  split <;> rfl

theorem Instr.setCondition_of_branch {i : Instr} {old : Expr} {target : Label}
    (h : i.op = .branch old target) (condition : Expr) :
    i.setCondition condition = { i with op := .branch condition target } := by
  rw [Instr.setCondition, h]

theorem Instr.retarget_setCondition (f : Label → Label) (i : Instr) (condition : Expr) :
    (i.retarget f).setCondition condition = (i.setCondition condition).retarget f := by
  obtain ⟨label, line, op⟩ := i
  cases op <;> rfl

/-! ## Slots and layouts -/

/-- An instruction that was there before weaving, with what was woven in before it. -/
structure Slot where
  /-- The labels and operations woven in before the instruction, in program order. -/
  woven : List (Label × Operation) := []
  /-- The instruction, with the jump target it had before weaving. -/
  instr : Instr

/-- A woven instruction; it has no source line. -/
def wovenInstr (e : Label × Operation) : Instr := { label := e.1, op := e.2 }

@[simp] theorem wovenInstr_label (e : Label × Operation) : (wovenInstr e).label = e.1 := rfl

@[simp] theorem wovenInstr_op (e : Label × Operation) : (wovenInstr e).op = e.2 := rfl

@[simp] theorem wovenInstr_sourceLine? (e : Label × Operation) :
    (wovenInstr e).sourceLine? = none := rfl

namespace Slot

/-- The operations woven in before the instruction. -/
def ops (s : Slot) : List Operation := s.woven.map (·.2)

/-- The label of the first instruction of the slot, where jumps to the slot arrive. -/
def entry (s : Slot) : Label := (s.woven.head?.map (·.1)).getD s.instr.label

/-- The labels of the slot, in program order. -/
def labels (s : Slot) : List Label := s.woven.map (·.1) ++ [s.instr.label]

/-- The instructions of the slot, with jumps sent to where `f` says. -/
def emit (f : Label → Label) (s : Slot) : List Instr :=
  s.woven.map wovenInstr ++ [s.instr.retarget f]

/-- The slot with one more woven instruction, next to the instruction that was there before. -/
def weave (s : Slot) (e : Label × Operation) : Slot := { s with woven := s.woven ++ [e] }

@[simp] theorem weave_instr (s : Slot) (e : Label × Operation) : (s.weave e).instr = s.instr := rfl

@[simp] theorem weave_ops (s : Slot) (e : Label × Operation) :
    (s.weave e).ops = s.ops ++ [e.2] := by
  simp [weave, ops]

theorem map_label_emit (f : Label → Label) (s : Slot) :
    (s.emit f).map (·.label) = s.labels := by
  simp [emit, labels, Function.comp_def]

theorem entry_eq_or_mem (s : Slot) :
    (s.woven = [] ∧ s.entry = s.instr.label) ∨ ∃ e ∈ s.woven, s.entry = e.1 := by
  cases h : s.woven with
  | nil => exact .inl ⟨rfl, by simp [entry, h]⟩
  | cons e rest => exact .inr ⟨e, by simp, by simp [entry, h]⟩

end Slot

/-- A woven body, taken apart into what was there before weaving and what was woven in. -/
structure Layout where
  /-- What was woven in at the entry. -/
  opening : List (Label × Operation) := []
  /-- The instructions that were there before weaving, with what was woven in before each. -/
  slots : List Slot := []
  /-- What was woven in at the end. -/
  closing : List (Label × Operation) := []

namespace Layout

/-- The layout of instructions with nothing woven in. -/
def ofInstrs (instrs : List Instr) : Layout := { slots := instrs.map fun i => { instr := i } }

/-- The labels that the slots had before weaving. -/
def origins (y : Layout) : List Label := y.slots.map (·.instr.label)

/-- Everything that was woven in. -/
def woven (y : Layout) : List (Label × Operation) :=
  y.opening ++ y.slots.flatMap (·.woven) ++ y.closing

/-- Where a jump arrives: at the first instruction of the slot that it names. -/
def destination (y : Layout) (t : Label) : Label :=
  ((y.slots.find? fun s => s.instr.label = t).map Slot.entry).getD t

/-- The instructions of the woven body. -/
def instrs (y : Layout) : List Instr :=
  y.opening.map wovenInstr ++ y.slots.flatMap (Slot.emit y.destination) ++
    y.closing.map wovenInstr

/-- The labels of the woven body, in program order. -/
def labels (y : Layout) : List Label :=
  y.opening.map (·.1) ++ y.slots.flatMap Slot.labels ++ y.closing.map (·.1)

/-- Nothing that was woven in jumps. -/
def Straight (y : Layout) : Prop := ∀ e ∈ y.woven, e.2.target? = none

/-- The layout with one more instruction woven in before the instruction `anchor`. -/
def weaveAt (y : Layout) (anchor : Label) (e : Label × Operation) : Layout :=
  { y with slots := y.slots.map fun s => if s.instr.label = anchor then s.weave e else s }

theorem map_label_instrs (y : Layout) : y.instrs.map (·.label) = y.labels := by
  simp [instrs, labels, List.map_flatMap, Slot.map_label_emit, Function.comp_def]

theorem labels_eq_of_instrs {b : Body} {y : Layout} (hb : b.instrs = y.instrs) :
    b.labels = y.labels := by
  rw [Body.labels, hb, map_label_instrs]

/-- The labels of a layout are those of its slots before weaving and those that were woven in. -/
theorem labels_perm (y : Layout) : y.labels.Perm (y.origins ++ y.woven.map (·.1)) := by
  have hslots : (y.slots.flatMap Slot.labels).Perm
      (y.slots.flatMap (fun s => s.woven.map (·.1)) ++ y.origins) := by
    rw [origins, List.map_eq_flatMap]
    exact (List.flatMap_append_perm y.slots _ _).symm
  have hwoven : y.woven.map (·.1) = y.opening.map (·.1) ++
      y.slots.flatMap (fun s => s.woven.map (·.1)) ++ y.closing.map (·.1) := by
    simp [woven, List.map_flatMap]
  rw [labels, hwoven]
  refine ((hslots.append_left _).append_right _).trans ?_
  rw [← List.append_assoc]
  refine (List.Perm.append_right _ List.perm_append_comm).trans ?_
  simp

theorem origins_nodup {y : Layout} (h : y.labels.Nodup) : y.origins.Nodup :=
  (List.nodup_append.1 (y.labels_perm.nodup_iff.1 h)).1

theorem woven_ne_origin {y : Layout} (h : y.labels.Nodup) {e : Label × Operation}
    (he : e ∈ y.woven) {l : Label} (hl : l ∈ y.origins) : e.1 ≠ l := by
  have hdisjoint := (List.nodup_append.1 (y.labels_perm.nodup_iff.1 h)).2.2
  exact fun heq => hdisjoint l hl e.1 (List.mem_map_of_mem he) heq.symm

theorem mem_woven_of_mem_slot {y : Layout} {s : Slot} (hs : s ∈ y.slots)
    {e : Label × Operation} (he : e ∈ s.woven) : e ∈ y.woven := by
  simp only [woven, List.mem_append, List.mem_flatMap]
  exact .inl (.inr ⟨s, hs, he⟩)

theorem mem_origins_of_mem {y : Layout} {s : Slot} (hs : s ∈ y.slots) :
    s.instr.label ∈ y.origins := List.mem_map_of_mem hs

/-! ## Where jumps arrive -/

theorem destination_of_mem {y : Layout} (h : y.origins.Nodup) {s : Slot} (hs : s ∈ y.slots) :
    y.destination s.instr.label = s.entry := by
  have hfind : (y.slots.find? fun r => r.instr.label = s.instr.label) = some s := by
    obtain ⟨before, after, hsplit⟩ := List.append_of_mem hs
    rw [List.find?_eq_some_iff_append]
    refine ⟨by simp, before, after, hsplit, fun r hr => ?_⟩
    rw [origins, hsplit, List.map_append, List.map_cons, List.nodup_append] at h
    have hne := h.2.2 r.instr.label (List.mem_map_of_mem hr) s.instr.label (by simp)
    simpa using hne
  rw [destination, hfind]
  rfl

theorem destination_of_not_mem {y : Layout} {t : Label} (ht : t ∉ y.origins) :
    y.destination t = t := by
  have hfind : (y.slots.find? fun r => r.instr.label = t) = none := by
    rw [List.find?_eq_none]
    intro r hr heq
    exact ht (by simpa [of_decide_eq_true heq] using mem_origins_of_mem hr)
  rw [destination, hfind]
  rfl

theorem destination_of_find? {y : Layout} {t : Label} {s : Slot}
    (h : (y.slots.find? fun r => r.instr.label = t) = some s) :
    s ∈ y.slots ∧ s.instr.label = t ∧ y.destination t = s.entry :=
  ⟨List.mem_of_find?_eq_some h, by simpa using List.find?_some h, by rw [destination, h]; rfl⟩

/-- Every jump arrives at the label that it names, or at a woven one. -/
theorem destination_eq_or_mem (y : Layout) (t : Label) :
    y.destination t = t ∨ ∃ e ∈ y.woven, y.destination t = e.1 := by
  cases hfind : y.slots.find? fun s => s.instr.label = t with
  | none => exact .inl (by rw [destination, hfind]; rfl)
  | some s =>
    obtain ⟨hs, ht, hdest⟩ := destination_of_find? hfind
    rcases s.entry_eq_or_mem with ⟨-, hentry⟩ | ⟨e, he, hentry⟩
    · exact .inl (by rw [hdest, hentry, ht])
    · exact .inr ⟨e, mem_woven_of_mem_slot hs he, by rw [hdest, hentry]⟩

/-- An insertion before an instruction takes over the jumps to it, as long as it is the first in
its slot, and no other jumps. -/
theorem destination_weaveAt {y : Layout} {anchor new : Label} (op : Operation)
    (hnodup : y.labels.Nodup) (hanchor : anchor ∈ y.origins) (t : Label) :
    (y.weaveAt anchor (new, op)).destination t =
      if y.destination t = anchor then new else y.destination t := by
  have hfind : ((y.weaveAt anchor (new, op)).slots.find? fun s => s.instr.label = t) =
      (y.slots.find? fun s => s.instr.label = t).map
        fun s => if s.instr.label = anchor then s.weave (new, op) else s := by
    rw [weaveAt, List.find?_map]
    congr 1
    refine congrArg (fun p => y.slots.find? p) (funext fun s => ?_)
    by_cases h : s.instr.label = anchor <;> simp [h]
  cases hs : y.slots.find? fun s => s.instr.label = t with
  | none =>
    have hne : t ≠ anchor := by
      rintro rfl
      obtain ⟨r, hr, hlabel⟩ := List.mem_map.1 hanchor
      exact absurd hlabel (by simpa using List.find?_eq_none.1 hs r hr)
    simp [destination, hfind, hs, hne]
  | some s =>
    obtain ⟨hmem, hlabel, hdest⟩ := destination_of_find? hs
    rw [destination, hfind, hs, hdest]
    simp only [Option.map_some, Option.getD_some]
    rcases s.entry_eq_or_mem with ⟨hnil, hentry⟩ | ⟨e, he, hentry⟩
    · by_cases ha : s.instr.label = anchor
      · simp [ha, Slot.entry, Slot.weave, hnil]
      · simp [ha, hentry]
    · have hne : s.entry ≠ anchor :=
        hentry ▸ woven_ne_origin hnodup (mem_woven_of_mem_slot hmem he) hanchor
      rw [if_neg hne]
      split
      · cases hw : s.woven with
        | nil => simp [hw] at he
        | cons d rest => simp [Slot.entry, Slot.weave, hw]
      · rfl

/-! ## Edits of bodies as edits of layouts -/

theorem Straight.retarget_woven {y : Layout} (hy : y.Straight) (f : Label → Label)
    {l : List (Label × Operation)} (hl : ∀ e ∈ l, e ∈ y.woven) :
    (l.map wovenInstr).map (Instr.retarget f) = l.map wovenInstr := by
  rw [List.map_map]
  refine List.map_congr_left fun e he => ?_
  simp [wovenInstr, Instr.retarget, Operation.retarget_of_target?_none (hy e (hl e he))]

/-- Turning jumps in a body turns them in the slots of its layout. -/
theorem map_retarget_instrs {y : Layout} (hy : y.Straight) (f : Label → Label) :
    y.instrs.map (Instr.retarget f) =
      y.opening.map wovenInstr ++ y.slots.flatMap (Slot.emit (f ∘ y.destination)) ++
        y.closing.map wovenInstr := by
  have hslots : (y.slots.flatMap (Slot.emit y.destination)).map (Instr.retarget f) =
      y.slots.flatMap (Slot.emit (f ∘ y.destination)) := by
    rw [List.map_flatMap]
    refine List.flatMap_congr fun s hs => ?_
    rw [Slot.emit, List.map_append, hy.retarget_woven f fun e he => mem_woven_of_mem_slot hs he]
    simp [Slot.emit, Instr.retarget, Operation.retarget_retarget]
  rw [instrs, List.map_append, List.map_append, hslots,
    hy.retarget_woven f (by simp +contextual [woven]),
    hy.retarget_woven f (by simp +contextual [woven])]

/-- A slot splits its layout, and its label stands nowhere before it. -/
theorem exists_split {y : Layout} (hnodup : y.labels.Nodup) {s : Slot} (hs : s ∈ y.slots) :
    ∃ before after, y.slots = before ++ s :: after ∧
      (∀ r ∈ before, r.instr.label ≠ s.instr.label) ∧
      (∀ r ∈ after, r.instr.label ≠ s.instr.label) ∧
      ∀ (f : Label → Label), ∀ i ∈ y.opening.map wovenInstr ++ before.flatMap (Slot.emit f) ++
        s.woven.map wovenInstr, i.label ≠ s.instr.label := by
  obtain ⟨before, after, hsplit⟩ := List.append_of_mem hs
  have hanchor : s.instr.label ∈ y.origins := mem_origins_of_mem hs
  have horigins := origins_nodup hnodup
  rw [origins, hsplit, List.map_append, List.map_cons, List.nodup_append, List.nodup_cons]
    at horigins
  obtain ⟨-, ⟨hafter, -⟩, hbefore⟩ := horigins
  have hbefore : ∀ r ∈ before, r.instr.label ≠ s.instr.label := fun r hr =>
    hbefore _ (List.mem_map_of_mem hr) _ (by simp)
  have hafter : ∀ r ∈ after, r.instr.label ≠ s.instr.label := fun r hr heq =>
    hafter (heq ▸ List.mem_map_of_mem hr)
  refine ⟨before, after, hsplit, hbefore, hafter, fun f i hi => ?_⟩
  simp only [List.mem_append, List.mem_map, List.mem_flatMap, Slot.emit,
    List.mem_singleton] at hi
  rcases hi with (⟨e, he, rfl⟩ | ⟨r, hr, ⟨e, he, rfl⟩ | rfl⟩) | ⟨e, he, rfl⟩
  · exact woven_ne_origin hnodup (by simp [woven, he]) hanchor
  · exact woven_ne_origin hnodup (mem_woven_of_mem_slot (by simp [hsplit, hr]) he) hanchor
  · exact hbefore r hr
  · exact woven_ne_origin hnodup (mem_woven_of_mem_slot hs he) hanchor

/-- Changing the one slot with a label leaves the others as they are. -/
theorem map_ite_split {before after : List Slot} {s : Slot} (f : Slot → Slot)
    (hbefore : ∀ r ∈ before, r.instr.label ≠ s.instr.label)
    (hafter : ∀ r ∈ after, r.instr.label ≠ s.instr.label) :
    (before ++ s :: after).map (fun r => if r.instr.label = s.instr.label then f r else r) =
      before ++ f s :: after := by
  have keep : ∀ l : List Slot, (∀ r ∈ l, r.instr.label ≠ s.instr.label) →
      (l.map fun r => if r.instr.label = s.instr.label then f r else r) = l := by
    intro l hl
    conv_rhs => rw [← List.map_id l]
    exact List.map_congr_left fun r hr => if_neg (hl r hr)
  simp only [List.map_append, List.map_cons, if_pos, keep before hbefore, keep after hafter]

/-- The layout in which the instruction `label` has another condition, if it is a branch. -/
def setCondition (y : Layout) (label : Label) (condition : Expr) : Layout :=
  { y with
    slots := y.slots.map fun s =>
      if s.instr.label = label then { s with instr := s.instr.setCondition condition } else s }

/-- An insertion before an instruction that was there before weaving adds to its slot. -/
theorem insertBefore?_eq {b : Body} {y : Layout} {anchor : Label} (op : Operation)
    (hb : b.instrs = y.instrs) (hy : y.Straight) (hnodup : b.labels.Nodup)
    (hanchor : anchor ∈ y.origins) :
    b.insertBefore? anchor op =
      some { b with instrs := (y.weaveAt anchor (b.nextLabel, op)).instrs } := by
  have hlabels : b.labels = y.labels := labels_eq_of_instrs hb
  rw [hlabels] at hnodup
  obtain ⟨s, hs, rfl⟩ := List.mem_map.1 hanchor
  obtain ⟨before, after, hsplit, hbefore, hafter, hinit⟩ := exists_split hnodup hs
  have hmem : s.instr.label ∈ b.labels := by
    rw [hlabels]
    exact y.labels_perm.mem_iff.2 (by simp [hanchor])
  -- The instructions with turned jumps, split at the anchor.
  set f : Label → Label := fun t => if t = s.instr.label then b.nextLabel else t with hf
  have hinstrs : b.instrs.map (Instr.redirect s.instr.label b.nextLabel) =
      (y.opening.map wovenInstr ++ before.flatMap (Slot.emit (f ∘ y.destination)) ++
        s.woven.map wovenInstr) ++
      (s.instr.retarget (f ∘ y.destination) ::
        (after.flatMap (Slot.emit (f ∘ y.destination)) ++ y.closing.map wovenInstr)) := by
    have hredirect : Instr.redirect s.instr.label b.nextLabel = Instr.retarget f := by
      funext i
      exact i.redirect_eq_retarget _ _
    rw [hb, hredirect, map_retarget_instrs hy, hsplit]
    simp [Slot.emit]
  have hinit := hinit (f ∘ y.destination)
  have hdest : (y.weaveAt s.instr.label (b.nextLabel, op)).destination = f ∘ y.destination :=
    funext fun t => destination_weaveAt op hnodup hanchor t
  have hslots : (y.weaveAt s.instr.label (b.nextLabel, op)).slots =
      before ++ s.weave (b.nextLabel, op) :: after := by
    rw [weaveAt, hsplit]
    exact map_ite_split (fun r => r.weave (b.nextLabel, op)) hbefore hafter
  rw [Body.insertBefore?, if_pos hmem]
  simp only [hinstrs, Option.some.injEq]
  congr 1
  rw [List.takeWhile_append_of_pos (by simpa using hinit),
    List.dropWhile_append_of_pos (by simpa using hinit), instrs, hslots, hdest]
  simp [Slot.emit, Slot.weave, weaveAt, wovenInstr]

theorem setCondition_destination (y : Layout) (label : Label) (condition : Expr) :
    (y.setCondition label condition).destination = y.destination := by
  funext t
  rw [destination, destination, setCondition, List.find?_map]
  have hpred : ((fun s : Slot => decide (s.instr.label = t)) ∘ fun s : Slot =>
      if s.instr.label = label then { s with instr := s.instr.setCondition condition } else s) =
      fun s => decide (s.instr.label = t) := by
    funext s
    by_cases h : s.instr.label = label <;> simp [h, Instr.setCondition_label]
  rw [hpred]
  cases y.slots.find? fun s => decide (s.instr.label = t) with
  | none => rfl
  | some s =>
    by_cases h : s.instr.label = label <;>
      simp [Slot.entry, h, Instr.setCondition_label]

theorem setCondition_origins (y : Layout) (label : Label) (condition : Expr) :
    (y.setCondition label condition).origins = y.origins := by
  simp only [origins, setCondition, List.map_map]
  refine List.map_congr_left fun s _ => ?_
  by_cases h : s.instr.label = label <;> simp [h]

/-- A new condition changes the one slot of its branch. -/
theorem setCondition_eq {b : Body} {y : Layout} {label : Label} (condition : Expr)
    (hb : b.instrs = y.instrs) (hnodup : b.labels.Nodup) (hlabel : label ∈ y.origins) :
    b.setCondition label condition =
      { b with instrs := (y.setCondition label condition).instrs } := by
  rw [labels_eq_of_instrs hb] at hnodup
  obtain ⟨s, hs, rfl⟩ := List.mem_map.1 hlabel
  obtain ⟨before, after, hsplit, hbefore, hafter, hinit⟩ := exists_split hnodup hs
  have hinit := hinit y.destination
  have hinstrs : b.instrs =
      (y.opening.map wovenInstr ++ before.flatMap (Slot.emit y.destination) ++
        s.woven.map wovenInstr) ++
      (s.instr.retarget y.destination ::
        (after.flatMap (Slot.emit y.destination) ++ y.closing.map wovenInstr)) := by
    rw [hb, instrs, hsplit]
    simp [Slot.emit]
  have hslots : (y.setCondition s.instr.label condition).slots =
      before ++ { s with instr := s.instr.setCondition condition } :: after := by
    rw [setCondition, hsplit]
    exact map_ite_split (fun r => { r with instr := r.instr.setCondition condition })
      hbefore hafter
  have hdrop : b.instrs.dropWhile (fun i => i.label ≠ s.instr.label) =
      s.instr.retarget y.destination ::
        (after.flatMap (Slot.emit y.destination) ++ y.closing.map wovenInstr) := by
    rw [hinstrs, List.dropWhile_append_of_pos (by simpa using hinit)]
    simp
  rw [Body.setCondition, hdrop]
  simp only
  congr 1
  rw [hinstrs, List.takeWhile_append_of_pos (by simpa using hinit), instrs, hslots,
    setCondition_destination]
  simp [Slot.emit, setCondition, Instr.retarget_setCondition]

/-- An insertion at the entry adds to the opening. -/
theorem insertEntry_eq {b : Body} {y : Layout} (op : Operation) (hb : b.instrs = y.instrs) :
    b.insertEntry op =
      { b with
        instrs := ({ y with opening := (b.nextLabel, op) :: y.opening } : Layout).instrs } := by
  rw [Body.insertEntry, hb]
  rfl

/-- An instruction appended without a line adds to the closing. -/
theorem push_eq {b : Body} {y : Layout} (op : Operation) (hb : b.instrs = y.instrs) :
    b.push 0 op =
      { b with
        instrs := ({ y with closing := y.closing ++ [(b.nextLabel, op)] } : Layout).instrs } := by
  rw [Body.push, hb]
  simp only [instrs, List.map_append, ← List.append_assoc]
  rfl

end Layout

end TraceWeave
