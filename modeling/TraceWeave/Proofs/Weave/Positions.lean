import TraceWeave.Machine.Basic
import TraceWeave.Proofs.Body.Consistency
import TraceWeave.Proofs.Machine.StraightLine
import TraceWeave.Proofs.Weave.Edits

/-!
# Positions in woven bodies

The instructions of a layout stand one slot after another.  `Layout.start` is the position where a
slot begins, and the position after the last slot at the end.  A run that comes to a position before
weaving comes to the start of its slot afterwards: by going on (`Layout.start_succ`) and by jumping
(`Layout.Lays.jumpPosition?_destination`).
-/

namespace TraceWeave

/-! ## Jumps -/

/-- Where labels are distinct, a jump to a label leads to the one instruction that has it. -/
theorem Body.jumpPosition?_eq {b : Body} (hnodup : b.labels.Nodup) {position : Nat} {i : Instr}
    (hi : b.instrs[position]? = some i) : b.jumpPosition? i.label = some position := by
  obtain ⟨hlt, hget⟩ := List.getElem?_eq_some_iff.1 hi
  have hfind : b.instrs.reverse.findIdx? (fun j => j.label == i.label) =
      some (b.instrs.length - 1 - position) := by
    rw [List.findIdx?_eq_some_iff_getElem]
    refine ⟨by simp; omega, ?_, fun n hn => ?_⟩
    · have hsub : b.instrs.length - 1 - (b.instrs.length - 1 - position) = position := by omega
      simp [List.getElem_reverse, hsub, hget]
    · -- An instruction after the position has another label.
      rw [List.getElem_reverse, ← hget, beq_iff_eq]
      intro heq
      have hother := getElem?_labels (List.getElem?_eq_getElem
        (by omega : b.instrs.length - 1 - n < b.instrs.length))
      rw [heq, hget] at hother
      have hindex := eq_of_getElem?_eq_some hnodup (getElem?_labels hi) hother
      omega
  rw [jumpPosition?, hfind, Option.map_some]
  congr 1
  omega

/-- In a consistent body, every jump leads to an instruction. -/
theorem Body.exists_jumpPosition? {b : Body} (h : b.defect? = none) {t : Label}
    (ht : t ∈ b.targets) :
    ∃ position i, b.instrs[position]? = some i ∧ i.label = t ∧
      b.jumpPosition? t = some position := by
  obtain ⟨hnodup, htargets⟩ := defect?_eq_none_iff.1 h
  obtain ⟨i, hi, rfl⟩ := List.mem_map.1 (htargets t ht)
  obtain ⟨position, hposition⟩ := List.getElem?_of_mem hi
  exact ⟨position, i, hposition, rfl, jumpPosition?_eq hnodup hposition⟩

namespace Layout

/-- The position where the k-th slot begins; for the number of slots, the position after them. -/
def start (y : Layout) (k : Nat) : Nat :=
  y.opening.length + ((y.slots.take k).flatMap Slot.labels).length

theorem start_zero (y : Layout) : y.start 0 = y.opening.length := by simp [start]

theorem start_succ {y : Layout} {k : Nat} {s : Slot} (hs : y.slots[k]? = some s) :
    y.start (k + 1) = y.start k + s.woven.length + 1 := by
  simp [start, List.take_add_one, hs, Slot.labels]
  omega

theorem start_mono (y : Layout) : Monotone y.start :=
  monotone_nat_of_le_succ fun k => by simp [start, List.take_add_one]

/-- What stands in a woven body from the start of a slot on. -/
theorem drop_start (y : Layout) (k : Nat) :
    y.instrs.drop (y.start k) =
      (y.slots.drop k).flatMap (Slot.emit y.destination) ++ y.closing.map wovenInstr := by
  have hsplit : y.instrs = (y.opening.map wovenInstr ++
      (y.slots.take k).flatMap (Slot.emit y.destination)) ++
      ((y.slots.drop k).flatMap (Slot.emit y.destination) ++ y.closing.map wovenInstr) := by
    have hslots : y.slots.flatMap (Slot.emit y.destination) =
        (y.slots.take k).flatMap (Slot.emit y.destination) ++
          (y.slots.drop k).flatMap (Slot.emit y.destination) := by
      rw [← List.flatMap_append, List.take_append_drop]
    rw [instrs, hslots]
    simp
  have hlength : y.start k = (y.opening.map wovenInstr ++
      (y.slots.take k).flatMap (Slot.emit y.destination)).length := by
    simp [start, List.length_flatMap, Slot.emit, Slot.labels]
  rw [hsplit, hlength, List.drop_left]

namespace Lays

variable {y : Layout} {b : Body} (hy : y.Lays b) {k : Nat} {s : Slot}
  (hs : y.slots[k]? = some s)

include hy

/-- What was woven in at the end stands after the last slot. -/
theorem drop_start_length : b.instrs.drop (y.start y.slots.length) = y.closing.map wovenInstr := by
  rw [hy.instrs_eq, drop_start, List.drop_length]
  rfl

/-- What was woven in at the entry stands at the beginning. -/
theorem at_opening : b.At 0 (y.opening.map (·.2)) := by
  refine ⟨(y.slots.flatMap (Slot.emit y.destination) ++ y.closing.map wovenInstr).map (·.op), ?_⟩
  rw [hy.instrs_eq, instrs]
  simp [Function.comp_def]

include hs

theorem drop_start_eq : ∃ rest, b.instrs.drop (y.start k) =
    s.woven.map wovenInstr ++ s.instr.retarget y.destination :: rest := by
  obtain ⟨hlt, hget⟩ := List.getElem?_eq_some_iff.1 hs
  rw [hy.instrs_eq, drop_start, List.drop_eq_getElem_cons hlt, hget]
  exact ⟨_, by simp [Slot.emit]; rfl⟩

/-- A slot begins with what was woven in before its instruction. -/
theorem at_start : b.At (y.start k) s.ops := by
  obtain ⟨rest, hdrop⟩ := hy.drop_start_eq hs
  refine ⟨(s.instr.retarget y.destination :: rest).map (·.op), ?_⟩
  rw [hdrop]
  simp [Slot.ops, Function.comp_def]

/-- After that comes the instruction itself. -/
theorem getElem?_instr :
    b.instrs[y.start k + s.ops.length]? = some (s.instr.retarget y.destination) := by
  obtain ⟨rest, hdrop⟩ := hy.drop_start_eq hs
  rw [← List.getElem?_drop, hdrop, List.getElem?_append_right (by simp [Slot.ops])]
  simp [Slot.ops]

/-- The first instruction of a slot is the one where jumps to its instruction arrive. -/
theorem exists_entry (hnodup : b.labels.Nodup) :
    ∃ i, b.instrs[y.start k]? = some i ∧ i.label = y.destination s.instr.label := by
  have hlabels := hy.labels_nodup hnodup
  rw [destination_of_mem (origins_nodup hlabels) (List.mem_of_getElem? hs)]
  obtain ⟨rest, hdrop⟩ := hy.drop_start_eq hs
  rw [← Nat.add_zero (y.start k), ← List.getElem?_drop, hdrop]
  cases hwoven : s.woven with
  | nil => exact ⟨s.instr.retarget y.destination, rfl, by simp [Slot.entry, hwoven]⟩
  | cons e after => exact ⟨wovenInstr e, rfl, by simp [Slot.entry, hwoven]⟩

/-- Jumps to an instruction lead to the start of its slot. -/
theorem jumpPosition?_destination (hnodup : b.labels.Nodup) :
    b.jumpPosition? (y.destination s.instr.label) = some (y.start k) := by
  obtain ⟨i, hi, hlabel⟩ := hy.exists_entry hs hnodup
  rw [← hlabel]
  exact Body.jumpPosition?_eq hnodup hi

omit hs in
/-- In the woven body, a jump leads to the start of the slot to which it led before weaving. -/
theorem jumpPosition?_of_mem_targets {b₀ : Body}
    (hslots : List.Forall₂ Instr.Carried b₀.instrs y.slots) (hb₀ : b₀.defect? = none)
    (hnodup : b.labels.Nodup) {t : Label} (ht : t ∈ b₀.targets) :
    ∃ k, k < b₀.instrs.length ∧ b₀.jumpPosition? t = some k ∧
      b.jumpPosition? (y.destination t) = some (y.start k) := by
  obtain ⟨k, i, hi, rfl, hposition⟩ := Body.exists_jumpPosition? hb₀ ht
  obtain ⟨hlt, hget⟩ := List.getElem?_eq_some_iff.1 hi
  have hlt' : k < y.slots.length := hslots.length_eq ▸ hlt
  have hs : y.slots[k]? = some y.slots[k] := List.getElem?_eq_getElem hlt'
  have hcarried : i.Carried y.slots[k] := hget ▸ hslots.get hlt hlt'
  refine ⟨k, hlt, hposition, ?_⟩
  rw [← hcarried.label]
  exact hy.jumpPosition?_destination hs hnodup

end Lays

end Layout

end TraceWeave
