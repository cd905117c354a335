import TraceWeave.Proofs.Weave.Positions
import TraceWeave.Proofs.Weave.Weavers

/-!
# Bodies of tests

In the body of a woven test, the start marker stands at the entry and nowhere else, an end marker
stands before every return and nowhere else, every jump leads to a place from which control comes to
an end marker before it comes to a return, and control never falls off the end
(`Lifecycle.marksTest`).
-/

namespace TraceWeave

/-- A marker of a test. -/
def Operation.isTestMarker : Operation → Bool
  | .probe (.testStart _) | .probe (.testEnd _) => true
  | _ => false

namespace Operation

@[simp] theorem isTestMarker_retarget (f : Label → Label) (op : Operation) :
    (op.retarget f).isTestMarker = op.isTestMarker := by
  cases op <;> rfl

@[simp] theorem isReturn_retarget (f : Label → Label) (op : Operation) :
    (op.retarget f).isReturn = op.isReturn := by
  cases op <;> rfl

theorem exists_of_isReturn {op : Operation} (h : op.isReturn = true) :
    ∃ value, op = .ret value := by
  cases op <;> first | exact ⟨_, rfl⟩ | cases h

end Operation

/-- Operations in which an end marker stands before every return and nowhere else, with no other
markers, and with something after every operation that may go on. -/
inductive Closed (test : String) : List Operation → Prop
  | done : Closed test []
  | plain {op : Operation} {rest : List Operation} (hreturn : op.isReturn = false)
      (hmarker : op.isTestMarker = false) (hnext : op.isTerminator = true ∨ rest ≠ [])
      (hrest : Closed test rest) : Closed test (op :: rest)
  | finish (value : Option Expr) {rest : List Operation} (hrest : Closed test rest) :
      Closed test (.probe (.testEnd test) :: .ret value :: rest)

theorem Closed.marker_eq {test : String} {ops : List Operation} (h : Closed test ops)
    {op : Operation} (hop : op ∈ ops) (hmarker : op.isTestMarker = true) :
    op = .probe (.testEnd test) := by
  induction h with
  | done => cases hop
  | plain _ hplain _ _ ih =>
    rcases List.mem_cons.1 hop with rfl | hop
    · rw [hplain] at hmarker
      cases hmarker
    · exact ih hop
  | finish value _ ih =>
    rcases List.mem_cons.1 hop with rfl | hop
    · rfl
    · rcases List.mem_cons.1 hop with rfl | hop
      · cases hmarker
      · exact ih hop

/-- The operations of a body from a position on. -/
def Body.opsFrom (b : Body) (position : Nat) : List Operation := (b.instrs.drop position).map (·.op)

/-- The body of a woven test. -/
structure Body.MarksTest (b : Body) (test : String) : Prop where
  /-- It begins with the start marker. -/
  start : ∃ i, b.instrs[0]? = some i ∧ i.op = .probe (.testStart test)
  /-- Something comes after the start marker. -/
  inside_ne : b.opsFrom 1 ≠ []
  /-- After it come closed operations. -/
  inside : Closed test (b.opsFrom 1)
  /-- Every jump leads to closed operations. -/
  jumps : ∀ t ∈ b.targets, ∀ position, b.jumpPosition? t = some position →
    b.opsFrom position ≠ [] ∧ Closed test (b.opsFrom position)

/-- Every marker of a woven test names it. -/
theorem Body.MarksTest.marker_eq {b : Body} {test : String} (h : b.MarksTest test) {i : Instr}
    (hi : i ∈ b.instrs) (hmarker : i.op.isTestMarker = true) :
    i.op = .probe (.testStart test) ∨ i.op = .probe (.testEnd test) := by
  obtain ⟨first, hfirst, hstart⟩ := h.start
  have hinside := h.inside
  rw [opsFrom] at hinside
  cases hinstrs : b.instrs with
  | nil =>
    rw [hinstrs] at hi
    cases hi
  | cons j rest =>
    rw [hinstrs] at hi hfirst hinside
    cases hfirst
    rcases List.mem_cons.1 hi with rfl | hi
    · exact .inl hstart
    · exact .inr (hinside.marker_eq (List.mem_map.2 ⟨i, hi, rfl⟩) hmarker)

/-- From the start of a slot on come the slots that are left, and what closes the body. -/
theorem Layout.Lays.opsFrom_start {b : Body} {y : Layout} (hy : y.Lays b) (k : Nat) :
    b.opsFrom (y.start k) =
      ((y.slots.drop k).flatMap (Slot.emit y.destination)).map (·.op) ++
        y.closing.map (·.2) := by
  rw [Body.opsFrom, hy.instrs_eq, Layout.drop_start]
  simp [Function.comp_def]

theorem Layout.Lays.opsFrom_start_ne_nil {b : Body} {y : Layout} (hy : y.Lays b) {k : Nat}
    (hk : k < y.slots.length) : b.opsFrom (y.start k) ≠ [] := by
  rw [hy.opsFrom_start, List.drop_eq_getElem_cons hk, List.flatMap_cons]
  simp [Slot.emit]

namespace Lifecycle

variable {test : String} {instrs : List Instr} {slots : List Slot}

/-- Every slot of a test holds an instruction, after an end marker if that is a return. -/
theorem closed_slots
    (hslots : List.Forall₂ (fun i s => s.instr = i ∧
      s.ops = if i.op.isReturn then [.probe (.testEnd test)] else []) instrs slots)
    (hmarkers : ∀ i ∈ instrs, i.op.isTestMarker = false) {closing : List Operation}
    (hclosing : Closed test closing)
    (hlast : closing ≠ [] ∨ ∀ i, instrs.getLast? = some i → i.op.isTerminator = true)
    (destination : Label → Label) :
    Closed test ((slots.flatMap (Slot.emit destination)).map (·.op) ++ closing) := by
  induction hslots with
  | nil => simpa using hclosing
  | @cons i s instrs slots hs hrest ih =>
    have hrestClosed := ih (fun j hj => hmarkers j (by simp [hj])) <|
        hlast.imp_right fun h j hj => by
      refine h j ?_
      rw [List.getLast?_cons, hj]
      rfl
    obtain ⟨rfl, hops⟩ := hs
    have hemit : ((s :: slots).flatMap (Slot.emit destination)).map (·.op) ++ closing =
        s.ops ++ s.instr.op.retarget destination ::
          ((slots.flatMap (Slot.emit destination)).map (·.op) ++ closing) := by
      simp [Slot.emit, Slot.ops, Instr.retarget, Function.comp_def]
    -- Control goes on only where something comes next.
    have hnext : s.instr.op.isTerminator = true ∨
        (slots.flatMap (Slot.emit destination)).map (·.op) ++ closing ≠ [] := by
      rcases hlast with hne | hlast
      · exact .inr fun h => hne (List.append_eq_nil_iff.1 h).2
      · cases hrest with
        | nil => exact .inl (hlast _ rfl)
        | cons _ _ => exact .inr (by simp [Slot.emit])
    rw [hemit, hops]
    by_cases hreturn : s.instr.op.isReturn
    · obtain ⟨value, hop⟩ := Operation.exists_of_isReturn hreturn
      rw [if_pos hreturn, hop]
      exact .finish value hrestClosed
    · rw [if_neg hreturn]
      exact .plain (by simpa using hreturn) (by simpa using hmarkers s.instr (by simp))
        (by simpa using hnext) hrestClosed

/-- A consistent body without markers becomes the body of a test. -/
theorem marksTest {b b' : Body} {u : Unit} (h : mark test b = .ok u b') (hnodup : b'.labels.Nodup)
    (hb : b.defect? = none) (hmarkers : ∀ i ∈ b.instrs, i.op.isTestMarker = false) :
    b'.MarksTest test := by
  obtain ⟨-, y, hy, ⟨l, hopening⟩, hclosing, hslots⟩ := mark_layout h hnodup
  have hcarried : List.Forall₂ Instr.Carried b.instrs y.slots :=
    hslots.imp fun i s hs => .of_eq hs.1
  have hends : Closed test (y.closing.map (·.2)) ∧
      (y.closing.map (·.2) ≠ [] ∨ ∀ i, b.instrs.getLast? = some i → i.op.isTerminator = true) := by
    rcases hclosing with ⟨hclosing, hfalls⟩ | ⟨-, l₁, l₂, hclosing⟩
    · rw [hclosing]
      refine ⟨.done, .inr fun i hi => ?_⟩
      simpa [fallsOff, hi] using hfalls
    · rw [hclosing]
      exact ⟨.finish none .done, .inl (by simp)⟩
  -- From the start of any slot on, the operations are closed.
  have hclosed : ∀ k, Closed test (b'.opsFrom (y.start k)) := by
    intro k
    rw [hy.opsFrom_start]
    refine closed_slots (List.forall₂_drop k hslots)
      (fun i hi => hmarkers i (List.mem_of_mem_drop hi)) hends.1
      (hends.2.imp_right fun h i hi => h i ?_) _
    rw [List.getLast?_drop] at hi
    split at hi
    · cases hi
    · exact hi
  have hstart : y.start 0 = 1 := by rw [Layout.start_zero, hopening, List.length_singleton]
  refine ⟨⟨wovenInstr (l, .probe (.testStart test)), ?_, rfl⟩, ?_, hstart ▸ hclosed 0, ?_⟩
  · rw [hy.instrs_eq, Layout.instrs, hopening]
    rfl
  · by_cases hslot : 0 < y.slots.length
    · exact hstart ▸ hy.opsFrom_start_ne_nil hslot
    · -- Control falls off a body without instructions, so it got a return.
      have hnil : b.instrs = [] := by
        rw [← List.length_eq_zero_iff, hslots.length_eq]
        omega
      have hfalls : fallsOff b = true := by simp [fallsOff, hnil]
      rcases hclosing with ⟨-, h⟩ | ⟨-, l₁, l₂, h⟩
      · rw [hfalls] at h
        cases h
      · rw [← hstart, hy.opsFrom_start, h]
        simp
  · intro t ht position hposition
    rw [Layout.targets_eq_map hy hcarried] at ht
    obtain ⟨t₀, ht₀, rfl⟩ := List.mem_map.1 ht
    obtain ⟨k, hk, -, hjump⟩ := hy.jumpPosition?_of_mem_targets hcarried hb hnodup ht₀
    rw [hjump] at hposition
    cases hposition
    exact ⟨hy.opsFrom_start_ne_nil (hslots.length_eq ▸ hk), hclosed k⟩

end Lifecycle

end TraceWeave
