import TraceWeave.Proofs.Weave.ProductPhase
import TraceWeave.Proofs.Weave.RequestedLines

/-!
# Which instruction a line probe stands for

A line probe is inserted before the anchor of its line, and other insertions may come between the
two.  `Body.nextOriginal?` looks from the probe past everything that was inserted, and
`Plan.nextOriginal?_of_lineProbe` says what it finds: an instruction with exactly the line of the
probe, or else the method does not have the line at all and was woven before every method of the
file that has it.  The second case is the price of the tolerance, since a line is probed only once
in a session (`Plan.not_attributesExactly`).
-/

namespace TraceWeave

/-- The first instruction at or after a label of a woven body that was there before weaving. -/
def Body.nextOriginal? (original woven : Body) (label : Label) : Option Instr :=
  (woven.instrs.dropWhile fun i => i.label ≠ label).find? fun i => i.label ∈ original.labels

/-! ## Looking past woven instructions -/

namespace Layout

variable {old : List Label} {instrs : List Instr} {slots : List Slot}

theorem find?_flatMap_emit (hslots : List.Forall₂ (fun i s => s.instr = i) instrs slots)
    (hwoven : ∀ s ∈ slots, ∀ e ∈ s.woven, e.1 ∉ old) (f : Label → Label) :
    (slots.flatMap (Slot.emit f)).find? (fun i => i.label ∈ old) =
      (instrs.find? fun i => i.label ∈ old).map (Instr.retarget f) := by
  induction hslots with
  | nil => rfl
  | @cons i s instrs slots hs _ ih =>
    have hfirst : ((s.woven.map wovenInstr).find? fun i => i.label ∈ old) = none := by
      rw [List.find?_eq_none]
      intro x hx
      obtain ⟨e, he, rfl⟩ := List.mem_map.1 hx
      exact fun h => hwoven s (by simp) e he (of_decide_eq_true h)
    rw [List.flatMap_cons, Slot.emit, List.append_assoc, List.find?_append, hfirst,
      Option.none_or, List.singleton_append, hs]
    rw [List.find?_cons, List.find?_cons, Instr.retarget_label]
    cases decide (i.label ∈ old) with
    | true => rfl
    | false => exact ih fun r hr => hwoven r (by simp [hr])

/-- What comes next among the instructions that were there before stays what it was, seen from an
instruction that was there before. -/
theorem find?_dropWhile_flatMap_emit {label : Label}
    (hslots : List.Forall₂ (fun i s => s.instr = i) instrs slots)
    (hwoven : ∀ s ∈ slots, ∀ e ∈ s.woven, e.1 ∉ old)
    (hlabel : ∀ s ∈ slots, ∀ e ∈ s.woven, e.1 ≠ label) (f : Label → Label) :
    ((slots.flatMap (Slot.emit f)).dropWhile fun i => i.label ≠ label).find?
        (fun i => i.label ∈ old) =
      ((instrs.dropWhile fun i => i.label ≠ label).find? fun i => i.label ∈ old).map
        (Instr.retarget f) := by
  induction hslots with
  | nil => rfl
  | @cons i s instrs slots hs hrest ih =>
    have hskip : ∀ x ∈ s.woven.map wovenInstr, decide (x.label ≠ label) = true := by
      intro x hx
      obtain ⟨e, he, rfl⟩ := List.mem_map.1 hx
      exact decide_eq_true (hlabel s (by simp) e he)
    have hwoven' : ∀ r ∈ slots, ∀ e ∈ r.woven, e.1 ∉ old := fun r hr => hwoven r (by simp [hr])
    rw [List.flatMap_cons, Slot.emit, List.append_assoc, List.dropWhile_append_of_pos hskip,
      List.singleton_append, hs]
    by_cases hi : i.label = label
    · rw [List.dropWhile_cons_of_neg (by simp [hi]), List.dropWhile_cons_of_neg (by simp [hi]),
        List.find?_cons, List.find?_cons, Instr.retarget_label]
      cases decide (i.label ∈ old) with
      | true => rfl
      | false => exact find?_flatMap_emit hrest hwoven' f
    · rw [List.dropWhile_cons_of_pos (by simp [hi]), List.dropWhile_cons_of_pos (by simp [hi])]
      exact ih hwoven' fun r hr => hlabel r (by simp [hr])

/-- Seen from a woven instruction, the instruction of its slot comes next. -/
theorem find?_dropWhile_of_woven {y : Layout} (hnodup : y.labels.Nodup) {s : Slot}
    (hs : s ∈ y.slots) {e : Label × Operation} (he : e ∈ s.woven) :
    ((y.instrs.dropWhile fun i => i.label ≠ e.1).find? fun i => i.label ∈ y.origins) =
      some (s.instr.retarget y.destination) := by
  obtain ⟨before, after, hsplit⟩ := List.append_of_mem hs
  obtain ⟨first, last, hwoven⟩ := List.append_of_mem he
  have hinstrs : y.instrs = (y.opening.map wovenInstr ++ before.flatMap (Slot.emit y.destination) ++
      first.map wovenInstr) ++ ((e :: last).map wovenInstr ++ s.instr.retarget y.destination ::
        (after.flatMap (Slot.emit y.destination) ++ y.closing.map wovenInstr)) := by
    rw [instrs, hsplit]
    simp [Slot.emit, hwoven]
  -- The label of the woven instruction stands nowhere before it.
  have hbefore : ∀ x ∈ y.opening.map wovenInstr ++ before.flatMap (Slot.emit y.destination) ++
      first.map wovenInstr, decide (x.label ≠ e.1) = true := by
    intro x hx
    have hlabels := hnodup
    rw [← map_label_instrs, hinstrs, List.map_append, List.nodup_append] at hlabels
    exact decide_eq_true (hlabels.2.2 x.label (List.mem_map_of_mem hx) e.1 (by simp))
  have hnone : ((e :: last).map wovenInstr).find? (fun i => i.label ∈ y.origins) = none := by
    rw [List.find?_eq_none]
    intro x hx
    obtain ⟨d, hd, rfl⟩ := List.mem_map.1 hx
    have hmem : d ∈ s.woven := by
      rw [hwoven]
      exact List.mem_append_right _ hd
    exact fun h => woven_ne_origin hnodup (mem_woven_of_mem_slot hs hmem) (of_decide_eq_true h) rfl
  rw [hinstrs, List.dropWhile_append_of_pos hbefore]
  have hfirst : ((e :: last).map wovenInstr ++ s.instr.retarget y.destination ::
      (after.flatMap (Slot.emit y.destination) ++ y.closing.map wovenInstr)).dropWhile
        (fun i => i.label ≠ e.1) = (e :: last).map wovenInstr ++ s.instr.retarget y.destination ::
      (after.flatMap (Slot.emit y.destination) ++ y.closing.map wovenInstr) := by
    simp
  rw [hfirst, List.find?_append, hnone, Option.none_or, List.find?_cons, Instr.retarget_label,
    decide_eq_true (mem_origins_of_mem hs)]

end Layout

namespace Product

theorem lineReached_not_mem_of_branches {target : MethodTarget}
    {branches : List (Label × UInt32 × UInt32)} {declared available : List Local} {i i' : Instr}
    {ops : List Operation} (h : Branches target branches declared available i ops i')
    (file : String) (line : UInt32) : .probe (.lineReached file line) ∉ ops := by
  rcases h with ⟨-, rfl, -⟩ | ⟨n, index, -, hdecomposed⟩
  · exact List.not_mem_nil
  · obtain ⟨condition, t, before, s, -, -, hs, -, rfl, -⟩ := hdecomposed
    intro hmem
    rcases List.mem_append.1 hmem with hmem | hmem
    · rcases isPart_of_mem_script hs _ hmem with ⟨_, _, h⟩ | ⟨_, _, h⟩ | ⟨_, _, _, h⟩ <;> cases h
    · cases List.mem_singleton.1 hmem

end Product

namespace ProductPhase

variable {plan : Plan} {target : MethodTarget} {w w' : Workpiece} {added : List (UInt32 × Label)}
  {b : Body} {y y' : Layout} (h : ProductPhase plan target w w' added b y y') {e : Instr}
  {file : String} {line : UInt32}

include h

/-- A line probe was there before the field probes came in. -/
theorem exists_instr_of_lineProbe (he : e ∈ w'.body.instrs)
    (hop : e.op = .probe (.lineReached file line)) :
    ∃ i ∈ b.instrs, i.label = e.label ∧ i.op = .probe (.lineReached file line) := by
  rw [h.instrs_eq'] at he
  obtain ⟨i, hi, s, -, ⟨hinstr, hops⟩, ⟨d, hd, rfl⟩ | rfl⟩ := exists_of_mem_flatMap_emit h.slots' he
  · obtain ⟨n, field, heq⟩ := hops d.2 (List.mem_map_of_mem hd)
    rw [wovenInstr_op, heq] at hop
    cases hop
  · rw [hinstr] at hop ⊢
    exact ⟨i, hi, rfl, Operation.eq_probe_of_retarget hop⟩

/-- An inserted line probe stands in the slot of an instruction of the method, as one of those that
were added for it. -/
theorem exists_slot_of_lineProbe (he : e ∈ b.instrs) (hnew : e.label ∉ w.body.labels)
    (hop : e.op = .probe (.lineReached file line)) :
    file = target.file ∧ ∃ s ∈ y.slots, ∃ d ∈ s.woven, wovenInstr d = e ∧
      ∃ i ∈ w.body.instrs, i.Carried s ∧ (line, i.label) ∈ added := by
  rw [h.instrs_eq] at he
  obtain ⟨i, hi, s, hs, ⟨ops, hops, hbranches⟩, ⟨d, hd, rfl⟩ | rfl⟩ :=
    exists_of_mem_flatMap_emit h.slots he
  · have hmem : d.2 ∈ s.ops := List.mem_map_of_mem hd
    rw [wovenInstr_op] at hop
    rw [hops, hop, List.mem_append] at hmem
    rcases hmem with hmem | hmem
    · obtain ⟨a, ha, heq⟩ := List.mem_map.1 hmem
      obtain ⟨ha, halabel⟩ := List.mem_filter.1 ha
      cases heq
      refine ⟨rfl, s, hs, d, hd, rfl, i, hi, hbranches.carried, ?_⟩
      rw [← of_decide_eq_true halabel]
      exact ha
    · exact absurd hmem (Product.lineReached_not_mem_of_branches hbranches _ _)
  · exact absurd (h.origins_eq ▸ Layout.mem_origins_of_mem hs) hnew

/-- Seen from something that the product weaver has inserted, the instruction of its slot comes
next. -/
theorem nextOriginal?_of_woven {s : Slot} (hs : s ∈ y.slots) {d : Label × Operation}
    (hd : d ∈ s.woven) (hmem : d.1 ∈ b.labels) :
    w.body.nextOriginal? w'.body d.1 =
      some ((s.instr.retarget y.destination).retarget y'.destination) := by
  have hsome := Layout.find?_dropWhile_of_woven h.layout_nodup hs hd
  rw [h.origins_eq, ← h.lays.instrs_eq] at hsome
  rw [Body.nextOriginal?, h.instrs_eq', Layout.find?_dropWhile_flatMap_emit
    (h.slots'.imp fun i s hs => hs.1)
    (fun r hr x hx hold => h.ne_of_mem_woven' hr hx (h.labels_subset hold) rfl)
    (fun r hr x hx => h.ne_of_mem_woven' hr hx hmem), hsome]
  rfl

/-- An inserted line probe of a method stands before an anchor of its line, and what comes next
among the instructions that were there before is that anchor. -/
theorem exists_anchor_of_lineProbe (he : e ∈ w'.body.instrs) (hnew : e.label ∉ w.body.labels)
    (hop : e.op = .probe (.lineReached file line)) :
    file = target.file ∧ ∃ i ∈ w.body.instrs, (line, i.label) ∈ added ∧
      ∃ i', w.body.nextOriginal? w'.body e.label = some i' ∧ i'.label = i.label ∧
        i'.line = i.line := by
  obtain ⟨e₁, he₁, hlabel, hop₁⟩ := h.exists_instr_of_lineProbe he hop
  obtain ⟨hfile, s, hs, d, hd, rfl, i, hi, hcarried, hadded⟩ :=
    h.exists_slot_of_lineProbe he₁ (hlabel ▸ hnew) hop₁
  have hnext := h.nextOriginal?_of_woven hs hd (List.mem_map_of_mem he₁)
  rw [wovenInstr_label] at hlabel
  rw [hlabel] at hnext
  exact ⟨hfile, i, hi, hadded, _, hnext, hcarried.label, hcarried.line⟩

end ProductPhase

/-! ## Lines of a program -/

/-- The k-th method of a program is product code of a source file and has an instruction with a
line. -/
def Program.Carries (p : Program) (settings : Settings) (k : Nat) (file : String)
    (line : UInt32) : Prop :=
  ∃ c m, p.methodList[k]? = some (c, m) ∧ productSkip? settings (.of c m) = none ∧
    c.sourcePath = file ∧ ∃ i ∈ m.body.instrs, i.sourceLine? = some line

namespace Plan

variable {plan : Plan} {p : Program} {s : Session}

/-- After a method that has a requested line, the line is logged. -/
theorem key_mem_sessionAt_of_carries (hclean : (plan.weaveProduct p s).2.2.isClean) {k : Nat}
    {file : String} {line : UInt32} (hcarries : p.Carries plan.settings k file line)
    (hrequested : line ∈ (plan.lines.linesFor file).toList) :
    LineLedger.key file line ∈ (plan.sessionAt productWeavers p s (k + 1)).keys := by
  obtain ⟨c, m, hk, hskip, rfl, i, hi, hline⟩ := hcarries
  obtain ⟨outcomes, w, happly, -, hsession⟩ := exists_applyAll_of_isClean hclean hk
  obtain ⟨added, b, y, y', hphase⟩ := exists_productPhase happly
  obtain ⟨anchor, hanchor⟩ := Option.isSome_iff_exists.1 (AnchorFinder.isSome_find? hi hline)
  have hlines := Product.mem_linesIn_of_sourceLine? hskip hrequested hi hline
  have hknown := hphase.reserves.known line anchor (List.mem_map.2 ⟨line, hlines, by rw [hanchor]⟩)
  simp only [LineLedger.contains, Bool.or_eq_true, List.contains_iff_mem,
    hphase.reserves.committed] at hknown
  rw [hsession, Session.commit, List.mem_append]
  exact hknown

/-- An inserted line probe stands before an instruction with exactly its line, past inserted
instructions only; or its method has no such instruction but one near enough, and every method of
the file that has one is woven later. -/
theorem nextOriginal?_of_lineProbe (hclean : (plan.weaveProduct p s).2.2.isClean) {k : Nat}
    {c : Class} {m m' : Method} (hk : p.methodList[k]? = some (c, m))
    (hm' : ((plan.weaveProduct p s).1.classes.flatMap (·.methods))[k]? = some m') {e : Instr}
    (he : e ∈ m'.body.instrs) (hnew : e.label ∉ m.body.labels) {file : String} {line : UInt32}
    (hop : e.op = .probe (.lineReached file line)) :
    ∃ i ∈ m.body.instrs, ∃ i', m.body.nextOriginal? m'.body e.label = some i' ∧
      i'.label = i.label ∧ i'.line = i.line ∧
      (i.sourceLine? = some line ∨
        (∀ j ∈ m.body.instrs, j.sourceLine? ≠ some line) ∧
        (∃ j ∈ m.body.instrs, ∃ n, j.sourceLine? = some n ∧
          Product.distance n line ≤ plan.settings.lineTolerance) ∧
        ∀ j, p.Carries plan.settings j file line → k < j) := by
  obtain ⟨outcomes, w, happly, hmethod, -⟩ := exists_applyAll_of_isClean hclean hk
  rw [weaveProduct, hmethod, Option.some.injEq] at hm'
  subst hm'
  obtain ⟨added, b, y, y', hphase⟩ := exists_productPhase happly
  have hadded := hphase.reserves
  obtain ⟨rfl, i, hi, hmem, i', hnext, hlabel, hline⟩ :=
    hphase.exists_anchor_of_lineProbe he hnew hop
  refine ⟨i, hi, i', hnext, hlabel, hline, ?_⟩
  obtain ⟨n, hn, heq⟩ := List.mem_map.1 (hadded.sound _ hmem)
  obtain ⟨rfl, hfind⟩ := Prod.mk.inj heq
  obtain ⟨-, hrequested, hnear⟩ := Product.mem_linesIn.1 hn
  obtain ⟨a, ha, halabel, hexact⟩ := AnchorFinder.exists_instr_of_find? hfind
  obtain rfl : a = i := List.inj_on_of_nodup_map hphase.origins_nodup ha hi halabel
  by_cases hcarried : ∃ j ∈ m.body.instrs, j.sourceLine? = some n
  · exact .inl (hexact.2 hcarried)
  · refine .inr ⟨fun j hj hjline => hcarried ⟨j, hj, hjline⟩, hnear, fun j hj => ?_⟩
    -- A method before this one would have logged the line.
    by_contra hjk
    have hne : j ≠ k := by
      rintro rfl
      obtain ⟨c', m', hk', -, -, i, hi, hline⟩ := hj
      rw [hk] at hk'
      cases hk'
      exact hcarried ⟨i, hi, hline⟩
    have hlogged := (keys_sessionAt_mono plan productWeavers p s (by omega : j + 1 ≤ k)).subset
      (key_mem_sessionAt_of_carries hclean hj hrequested)
    have hfresh := hadded.fresh _ hmem
    simp [LineLedger.contains, hlogged] at hfresh

/-! ### A neighbour that is woven first -/

/-- A method with a single instruction on a line. -/
def onLine (name : String) (line : Int32) : Method :=
  { name, returnType := .void, body := { instrs := [⟨⟨0⟩, line, .ret none⟩] } }

/-- A class with a method on line 5 before one on line 6. -/
def neighbours : Program :=
  ⟨[{ name := "Foo", sourceFile := some "Foo.java",
      methods := [onLine "near" 5, onLine "exact" 6] }]⟩

/-- A plan that requests line 6. -/
def requestingSix : Plan := { lines := ⟨[("Foo.java", ⟨[⟨6, 6⟩]⟩)]⟩ }

/-- The first method with the probe that it gets. -/
def nearProbed : Method :=
  { onLine "near" 5 with
    body := { instrs := [⟨⟨1⟩, 0, .probe (.lineReached "Foo.java" 6)⟩, ⟨⟨0⟩, 5, .ret none⟩] } }

/-- Every inserted line probe of a clean run stands before an instruction with exactly its line, as
long as product code of the file has that line. -/
def AttributesExactly (plan : Plan) (p : Program) (s : Session) : Prop :=
  (plan.weaveProduct p s).2.2.isClean → ∀ (file : String) (line : UInt32),
    (∃ j, p.Carries plan.settings j file line) →
    ∀ (k : Nat) (c : Class) (m m' : Method), p.methodList[k]? = some (c, m) →
      ((plan.weaveProduct p s).1.classes.flatMap (·.methods))[k]? = some m' →
      ∀ e ∈ m'.body.instrs, e.label ∉ m.body.labels → e.op = .probe (.lineReached file line) →
        ∃ i ∈ m.body.instrs, ∃ i', m.body.nextOriginal? m'.body e.label = some i' ∧
          i'.label = i.label ∧ i.sourceLine? = some line

theorem neighbours_carries : neighbours.Carries requestingSix.settings 1 "Foo.java" 6 :=
  ⟨_, onLine "exact" 6, rfl, rfl, rfl, _, List.mem_singleton_self _, rfl⟩

/-- The probe of line 6 goes to the method on line 5, which is woven first. -/
theorem not_attributesExactly : ¬ requestingSix.AttributesExactly neighbours ∅ := by
  intro h
  obtain ⟨i, hi, -, -, -, hline⟩ := h rfl "Foo.java" 6 ⟨1, neighbours_carries⟩ 0 _
    (onLine "near" 5) nearProbed rfl rfl _ (List.mem_cons_self) (by decide) rfl
  rw [List.mem_singleton.1 hi] at hline
  cases hline

/-- For that probe the general statement says that the method on line 6 comes later. -/
theorem nextOriginal?_neighbours :
    ∃ i ∈ (onLine "near" 5).body.instrs, ∃ i',
      (onLine "near" 5).body.nextOriginal? nearProbed.body ⟨1⟩ = some i' ∧
        i'.label = i.label ∧ i'.line = i.line ∧
        (i.sourceLine? = some 6 ∨
          (∀ j ∈ (onLine "near" 5).body.instrs, j.sourceLine? ≠ some 6) ∧
          (∃ j ∈ (onLine "near" 5).body.instrs, ∃ n, j.sourceLine? = some n ∧
            Product.distance n 6 ≤ requestingSix.settings.lineTolerance) ∧
          ∀ j, neighbours.Carries requestingSix.settings j "Foo.java" 6 → 0 < j) := by
  have hclean : (requestingSix.weaveProduct neighbours ∅).2.2.isClean := rfl
  have hmethod : ((requestingSix.weaveProduct neighbours ∅).1.classes.flatMap (·.methods))[0]? =
      some nearProbed := rfl
  have hprobe : (⟨⟨1⟩, 0, .probe (.lineReached "Foo.java" 6)⟩ : Instr) ∈ nearProbed.body.instrs :=
    List.mem_cons_self
  exact nextOriginal?_of_lineProbe hclean rfl hmethod hprobe (by decide) rfl

end Plan

end TraceWeave
