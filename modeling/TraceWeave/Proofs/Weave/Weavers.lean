import TraceWeave.Proofs.Weave.Edits
import TraceWeave.Weave.Session

/-!
# What field probes and test markers leave

A weaver is described by the layout of the body that it leaves, next to the instructions that it was
given: `FieldAccess.weave_layout` for the field weaver and `Lifecycle.weave_layout` for the test
weaver.  Both ask for distinct labels in the body that is left, which the check after each weaver
makes sure of.
-/

namespace TraceWeave

/-- A probe that reads no variable. -/
def Probe.isMark : Probe → Bool
  | .capture .. => false
  | _ => true

/-- An operation that is a probe and reads no variable. -/
def Operation.isMark : Operation → Bool
  | .probe p => p.isMark
  | _ => false

/-- A slot around an instruction that stays as it was, with marks before it. -/
def Instr.Marked (i : Instr) (s : Slot) : Prop := s.instr = i ∧ ∀ op ∈ s.ops, op.isMark

/-- What counts probes does what the edit does, and its outcome follows from the two counts. -/
theorem countProbes_eq_ok {edit : EditM Unit} {b b' : Body} {o : Outcome}
    (h : countProbes edit b = .ok o b') :
    (∃ u, edit b = .ok u b') ∧ o = .ofCounts b.probeCount b'.probeCount := by
  replace h := get_bind_eq_ok.1 h
  obtain ⟨u, b₁, hedit, h⟩ := bind_eq_ok.1 h
  cases h
  exact ⟨⟨u, hedit⟩, rfl⟩

/-! ## Outcomes -/

/-- What a weaver reports of a method that it may leave alone: the reason for that, or else what
follows from the number of probes before and after. -/
inductive Outcome.Reports (skip : Option SkipReason) (b b' : Body) : Outcome → Prop
  | skipped {reason : SkipReason} (hskip : skip = some reason) (hbody : b' = b) :
      Reports skip b b' (.skipped reason)
  | counted (hskip : skip = none) : Reports skip b b' (.ofCounts b.probeCount b'.probeCount)

namespace Outcome

theorem ofCounts_self (n : Nat) : ofCounts n n = .unchanged := if_pos (Nat.sub_self n)

theorem Reports.unchanged {skip : Option SkipReason} {b : Body} (hskip : skip = none) :
    Reports skip b b .unchanged := ofCounts_self b.probeCount ▸ .counted hskip

theorem Reports.outcomeProbes_eq {skip : Option SkipReason} {b b' : Body} {o : Outcome}
    (h : o.Reports skip b b') : ReportEntry.outcomeProbes o = b'.probeCount - b.probeCount := by
  cases h with
  | skipped _ hbody => exact (Nat.sub_eq_zero_of_le (hbody ▸ Nat.le_refl _)).symm
  | counted _ =>
    unfold ofCounts
    split
    · next hzero => exact hzero.symm
    · rfl

theorem Reports.skipReason?_eq {skip : Option SkipReason} {b b' : Body} {o : Outcome}
    (h : o.Reports skip b b') : ReportEntry.skipReason? o = skip := by
  cases h with
  | skipped hskip _ => exact hskip.symm
  | counted hskip =>
    unfold ofCounts
    split <;> exact hskip.symm

end Outcome

theorem FieldAccess.weave_reports {settings : Settings} {fields : FieldSelection}
    {target : MethodTarget} {b b' : Body} {o : Outcome}
    (h : weave settings fields target b = .ok o b') :
    o.Reports (productSkip? settings target) b b' := by
  cases hskip : productSkip? settings target with
  | some reason =>
    simp only [weave, hskip] at h
    cases h
    exact .skipped rfl rfl
  | none =>
    simp only [weave, hskip] at h
    split at h
    · cases h
      exact .unchanged rfl
    · rw [(countProbes_eq_ok (get_bind_eq_ok.1 h)).2]
      exact .counted rfl

theorem Lifecycle.weave_reports {settings : Settings} {target : MethodTarget} {b b' : Body}
    {o : Outcome} (h : weave settings target b = .ok o b') :
    o.Reports (skip? settings target) b b' := by
  cases hskip : skip? settings target with
  | some reason =>
    simp only [weave, hskip] at h
    cases h
    exact .skipped rfl rfl
  | none =>
    simp only [weave, hskip] at h
    rw [(countProbes_eq_ok h).2]
    exact .counted rfl

/-! ## Insertions alone -/

theorem Adds.exists_layout {f : Label → List Operation} {b b' : Body} (h : Adds f b b')
    (hnodup : b'.labels.Nodup) (hf : ∀ l, f l ≠ [] → l ∈ b.labels) :
    ∃ y : Layout, y.Lays b' ∧ y.opening = [] ∧ y.closing = [] ∧
      List.Forall₂ (fun i s => s.instr = i ∧ s.ops = f i.label) b.instrs y.slots := by
  obtain ⟨y, hy, hgains⟩ := h.layout hnodup _ (Layout.ofInstrs_lays b) fun l hl => by
    rw [Layout.origins_ofInstrs]
    exact hf l hl
  refine ⟨y, hy, hgains.opening_eq, hgains.closing_eq, ?_⟩
  have hslots := hgains.slots
  rw [Layout.ofInstrs, List.forall₂_map_left_iff] at hslots
  refine hslots.imp fun i s hs => ⟨hs.1, ?_⟩
  rw [hs.2]
  rfl

theorem exists_mem_of_opsAt_ne_nil {l : List (Label × Operation)} {label : Label}
    (h : opsAt l label ≠ []) : ∃ e ∈ l, e.1 = label := by
  obtain ⟨op, hop⟩ := List.exists_mem_of_ne_nil _ h
  simp only [opsAt, List.mem_map, List.mem_filter, decide_eq_true_eq] at hop
  obtain ⟨e, ⟨he, hlabel⟩, -⟩ := hop
  exact ⟨e, he, hlabel⟩

/-- Where labels are distinct, a label is given what is inserted for its instruction. -/
theorem opsAt_flatMap {instrs : List Instr} (hnodup : (instrs.map (·.label)).Nodup)
    {g : Instr → List (Label × Operation)} (hg : ∀ i, ∀ e ∈ g i, e.1 = i.label) {i : Instr}
    (hi : i ∈ instrs) : opsAt (instrs.flatMap g) i.label = (g i).map (·.2) := by
  have hown : ∀ j, opsAt (g j) j.label = (g j).map (·.2) := fun j => by
    rw [opsAt, List.filter_eq_self.2 fun e he => decide_eq_true (hg j e he)]
  have hother : ∀ j, j.label ≠ i.label → opsAt (g j) i.label = [] := fun j hne => by
    rw [opsAt, List.filter_eq_nil_iff.2 fun e he => by simpa [hg j e he] using hne]
    rfl
  induction instrs with
  | nil => cases hi
  | cons j rest ih =>
    rw [List.map_cons, List.nodup_cons] at hnodup
    have happend : opsAt ((j :: rest).flatMap g) i.label =
        opsAt (g j) i.label ++ opsAt (rest.flatMap g) i.label := by
      simp [opsAt]
    rw [happend]
    rcases List.mem_cons.1 hi with rfl | hi
    · have hrest : opsAt (rest.flatMap g) i.label = [] := by
        by_contra hne
        obtain ⟨e, he, hlabel⟩ := exists_mem_of_opsAt_ne_nil hne
        obtain ⟨j, hj, he⟩ := List.mem_flatMap.1 he
        exact hnodup.1 (hlabel ▸ hg j e he ▸ List.mem_map_of_mem hj)
      rw [hown, hrest, List.append_nil]
    · have hne : j.label ≠ i.label := fun heq => hnodup.1 (heq ▸ List.mem_map_of_mem hi)
      rw [hother j hne, ih hnodup.2 hi, List.nil_append]

/-! ## Field probes -/

namespace FieldAccess

theorem probeReads_eq (file : String) (reads : List Read) :
    probeReads file reads =
      insertAll (reads.map fun r => (r.label, .probe (.fieldRead file r.line r.field))) := by
  induction reads with
  | nil => rfl
  | cons r rest ih => simp only [probeReads, List.map_cons, insertAll, ih]

theorem label_of_mem_readsOf {fields : FieldSelection} {i : Instr} {r : Read}
    (h : r ∈ readsOf fields i) : r.label = i.label := by
  unfold readsOf at h
  split at h
  · obtain ⟨name, -, rfl⟩ := List.mem_map.1 h
    rfl
  · cases h

/-- The probe of a read in a file. -/
def Read.probe (file : String) (r : Read) : Probe := .fieldRead file r.line r.field

/-- The probes that the field weaver inserts before an instruction. -/
def probesBefore (settings : Settings) (fields : FieldSelection) (target : MethodTarget)
    (i : Instr) : List Probe :=
  match productSkip? settings target with
  | some _ => []
  | none => (readsOf fields i).map (Read.probe target.file)

theorem readsOf_eq_nil {fields : FieldSelection} (h : fields.isEmpty) (i : Instr) :
    readsOf fields i = [] := by
  have hmonitored : ∀ l : List FieldRef, l.filter fields.monitors = [] := fun l => by
    refine List.filter_eq_nil_iff.2 fun f _ => ?_
    rw [FieldSelection.monitors, List.isEmpty_iff.1 h]
    exact Bool.false_ne_true
  unfold readsOf
  split
  · rw [monitoredReads, hmonitored]
    rfl
  · rfl

theorem exists_read_of_mem_probesBefore {settings : Settings} {fields : FieldSelection}
    {target : MethodTarget} {i : Instr} {p : Probe} (h : p ∈ probesBefore settings fields target i) :
    ∃ r ∈ readsOf fields i, p = r.probe target.file := by
  unfold probesBefore at h
  split at h
  · cases h
  · obtain ⟨r, hr, rfl⟩ := List.mem_map.1 h
    exact ⟨r, hr, rfl⟩

theorem map_probesBefore {settings : Settings} {target : MethodTarget}
    (hskip : productSkip? settings target = none) (fields : FieldSelection) (i : Instr) :
    ((readsOf fields i).map fun r =>
        (r.label, Operation.probe (.fieldRead target.file r.line r.field))) =
      (probesBefore settings fields target i).map fun p => (i.label, .probe p) := by
  simp only [probesBefore, hskip, List.map_map]
  refine List.map_congr_left fun r hr => ?_
  simp [label_of_mem_readsOf hr, Read.probe]

/-- The field weaver inserts the probes of each instruction, in order. -/
theorem weave_eq_ok {settings : Settings} {fields : FieldSelection} {target : MethodTarget}
    {b b' : Body} {o : Outcome} (h : weave settings fields target b = .ok o b') :
    ∃ u, insertAll (b.instrs.flatMap fun i =>
      (probesBefore settings fields target i).map fun p => (i.label, .probe p)) b = .ok u b' := by
  have hnothing (hnone : ∀ i, probesBefore settings fields target i = []) :
      insertAll (b.instrs.flatMap fun i =>
        (probesBefore settings fields target i).map fun p => (i.label, .probe p)) b = .ok () b := by
    rw [List.flatMap_eq_nil_iff.2 fun i _ => by rw [hnone i, List.map_nil]]
    rfl
  cases hskip : productSkip? settings target with
  | some reason =>
    simp only [weave, hskip] at h
    cases h
    exact ⟨(), hnothing fun i => by simp only [probesBefore, hskip]⟩
  | none =>
    simp only [weave, hskip] at h
    split at h
    · next hfields =>
      cases h
      refine ⟨(), hnothing fun i => ?_⟩
      simp only [probesBefore, hskip, readsOf_eq_nil hfields, List.map_nil]
    · obtain ⟨⟨u, hreads⟩, -⟩ := countProbes_eq_ok (get_bind_eq_ok.1 h)
      rw [probeReads_eq, List.map_flatMap] at hreads
      simp only [map_probesBefore hskip] at hreads
      exact ⟨u, hreads⟩

/-- The field weaver inserts the probes of the reads of each instruction before it and changes
nothing else. -/
theorem weave_probesBefore {settings : Settings} {fields : FieldSelection} {target : MethodTarget}
    {b b' : Body} {o : Outcome} (h : weave settings fields target b = .ok o b')
    (hnodup : b'.labels.Nodup) :
    b'.locals = b.locals ∧ ∃ y : Layout, y.Lays b' ∧ y.opening = [] ∧ y.closing = [] ∧
      List.Forall₂ (fun i s => s.instr = i ∧
        s.ops = (probesBefore settings fields target i).map .probe) b.instrs y.slots := by
  obtain ⟨u, hinsert⟩ := weave_eq_ok h
  have hlabels : ∀ i, ∀ e ∈ (probesBefore settings fields target i).map fun p =>
      (i.label, Operation.probe p), e.1 = i.label := fun i e he => by
    obtain ⟨p, -, rfl⟩ := List.mem_map.1 he
    rfl
  obtain ⟨hlocals, hadds⟩ := insertAll_adds (fun e he => by
    obtain ⟨i, -, he⟩ := List.mem_flatMap.1 he
    obtain ⟨p, -, rfl⟩ := List.mem_map.1 he
    rfl) hinsert
  obtain ⟨y, hy, hopening, hclosing, hslots⟩ := hadds.exists_layout hnodup fun l hl => by
    obtain ⟨e, he, rfl⟩ := exists_mem_of_opsAt_ne_nil hl
    obtain ⟨i, hi, he⟩ := List.mem_flatMap.1 he
    exact List.mem_map.2 ⟨i, hi, (hlabels i e he).symm⟩
  refine ⟨hlocals, y, hy, hopening, hclosing, ?_⟩
  refine ((List.forall₂_and_left _ _).2 ⟨fun i hi => hi, hslots⟩).imp fun i s hs => ?_
  refine ⟨hs.2.1, ?_⟩
  rw [hs.2.2, opsAt_flatMap (hnodup.sublist hadds.labels) hlabels hs.1, List.map_map]
  rfl

/-- The field weaver inserts field probes and changes nothing else. -/
theorem weave_layout {settings : Settings} {fields : FieldSelection} {target : MethodTarget}
    {b b' : Body} {o : Outcome} (h : weave settings fields target b = .ok o b')
    (hnodup : b'.labels.Nodup) :
    b'.locals = b.locals ∧ ∃ y : Layout, y.Lays b' ∧ y.opening = [] ∧ y.closing = [] ∧
      List.Forall₂ (fun i s => s.instr = i ∧
        ∀ op ∈ s.ops, ∃ line field, op = .probe (.fieldRead target.file line field))
        b.instrs y.slots := by
  obtain ⟨hlocals, y, hy, hopening, hclosing, hslots⟩ := weave_probesBefore h hnodup
  refine ⟨hlocals, y, hy, hopening, hclosing, hslots.imp fun i s hs => ⟨hs.1, fun op hop => ?_⟩⟩
  rw [hs.2] at hop
  obtain ⟨p, hp, rfl⟩ := List.mem_map.1 hop
  obtain ⟨r, -, rfl⟩ := exists_read_of_mem_probesBefore hp
  exact ⟨r.line, r.field, rfl⟩

end FieldAccess

/-! ## Test markers -/

namespace Lifecycle

theorem markEnds_eq (test : String) (labels : List Label) :
    markEnds test labels = insertAll (labels.map fun l => (l, .probe (.testEnd test))) := by
  induction labels with
  | nil => rfl
  | cons l rest ih => simp only [markEnds, List.map_cons, insertAll, ih]

/-- An insertion before an instruction leaves the last instruction what it was, up to its jump. -/
theorem fallsOff_of_layout {b b' : Body} {y : Layout} (hy : y.Lays b') (hclosing : y.closing = [])
    (hopening : y.opening = [])
    (hslots : b.instrs = y.slots.map (·.instr)) : fallsOff b' = fallsOff b := by
  have hlast : b'.instrs.getLast? = b.instrs.getLast?.map (Instr.retarget y.destination) := by
    rw [hy.instrs_eq, Layout.instrs, hclosing, hopening, hslots]
    rcases List.eq_nil_or_concat y.slots with h | ⟨init, s, h⟩
    · simp [h]
    · simp [h, Slot.emit]
  unfold fallsOff
  rw [hlast]
  cases b.instrs.getLast? with
  | none => rfl
  | some i =>
    obtain ⟨label, line, op⟩ := i
    cases op <;> rfl

theorem closeEnd_locals (test : String) (b : Body) : (closeEnd test b).locals = b.locals := by
  unfold closeEnd
  split <;> rfl

theorem closeEnd_labels_sublist (test : String) (b : Body) :
    b.labels.Sublist (closeEnd test b).labels := by
  unfold closeEnd
  split
  · simp [Body.labels, Body.push]
  · exact .refl _

theorem closeEnd_layout (test : String) {b : Body} {y : Layout} (hy : y.Lays b) :
    ∃ closing, Layout.Lays { y with closing := y.closing ++ closing } (closeEnd test b) ∧
      (closing = [] ∧ fallsOff b = false ∨ fallsOff b = true ∧ ∃ l₁ l₂,
        closing = [(l₁, .probe (.testEnd test)), (l₂, .ret none)]) := by
  unfold closeEnd
  by_cases hfalls : fallsOff b
  · rw [if_pos hfalls]
    refine ⟨_, ?_, .inr ⟨hfalls, b.nextLabel, (b.push 0 (.probe (.testEnd test))).nextLabel, rfl⟩⟩
    have hmark : Layout.Lays _ (b.push 0 (.probe (.testEnd test))) := hy.push rfl
    have hret : Layout.Lays _ ((b.push 0 (.probe (.testEnd test))).push 0 (.ret none)) :=
      hmark.push rfl
    simpa using hret
  · rw [if_neg hfalls]
    exact ⟨[], by simpa using hy, .inl ⟨rfl, by simpa using hfalls⟩⟩

/-- The returns of a body, where labels are distinct. -/
theorem opsAt_returns {b : Body} (hnodup : b.labels.Nodup) (op : Operation) {i : Instr}
    (hi : i ∈ b.instrs) :
    opsAt ((returns b).map fun l => (l, op)) i.label = if i.op.isReturn then [op] else [] := by
  have hreturns : ((returns b).map fun l => (l, op)) =
      b.instrs.flatMap fun j => if j.op.isReturn then [(j.label, op)] else [] := by
    rw [returns, List.map_map, ← List.filterMap_eq_map, ← List.filterMap_eq_filter,
      List.filterMap_filterMap, List.filterMap_eq_flatMap_toList]
    refine List.flatMap_congr fun j _ => ?_
    by_cases hreturn : j.op.isReturn <;> simp [hreturn, Option.guard]
  rw [hreturns, opsAt_flatMap hnodup (fun j e he => ?_) hi]
  · split <;> rfl
  · split at he
    · rw [List.mem_singleton.1 he]
    · cases he

/-- A test gets end markers, then what closes its end, and then the start marker. -/
theorem mark_eq_ok {test : String} {b b' : Body} {u : Unit} (h : mark test b = .ok u b') :
    ∃ b₁ u₁, insertAll ((returns b).map fun l => (l, .probe (.testEnd test))) b = .ok u₁ b₁ ∧
      b' = (closeEnd test b₁).insertEntry (.probe (.testStart test)) := by
  replace h := get_bind_eq_ok.1 h
  obtain ⟨u₁, b₁, hends, h⟩ := bind_eq_ok.1 h
  cases h
  rw [markEnds_eq] at hends
  exact ⟨b₁, u₁, hends, rfl⟩

/-- A test gets the start marker at the entry and the end marker before returns, and a body that
control can fall off gets an end marker and a return of its own. -/
theorem mark_layout {test : String} {b b' : Body} {u : Unit} (h : mark test b = .ok u b')
    (hnodup : b'.labels.Nodup) :
    b'.locals = b.locals ∧ ∃ y : Layout, y.Lays b' ∧
      (∃ l, y.opening = [(l, .probe (.testStart test))]) ∧
      (y.closing = [] ∧ fallsOff b = false ∨ fallsOff b = true ∧ ∃ l₁ l₂,
        y.closing = [(l₁, .probe (.testEnd test)), (l₂, .ret none)]) ∧
      List.Forall₂ (fun i s => s.instr = i ∧
        s.ops = if i.op.isReturn then [.probe (.testEnd test)] else []) b.instrs y.slots := by
  obtain ⟨b₁, u₁, hends, rfl⟩ := mark_eq_ok h
  obtain ⟨hlocals, hadds⟩ := insertAll_adds (fun e he => by
    obtain ⟨l, -, rfl⟩ := List.mem_map.1 he
    rfl) hends
  -- The labels before the end is closed are among those afterwards.
  have hnodup₁ : b₁.labels.Nodup := by
    refine hnodup.sublist ((closeEnd_labels_sublist test b₁).trans ?_)
    exact List.sublist_cons_self _ _
  obtain ⟨y, hy, hopening, hclosing, hslots⟩ := hadds.exists_layout hnodup₁ fun l hl => by
    obtain ⟨e, he, rfl⟩ := exists_mem_of_opsAt_ne_nil hl
    obtain ⟨l, hreturn, rfl⟩ := List.mem_map.1 he
    obtain ⟨i, hi, rfl⟩ := List.mem_map.1 hreturn
    exact List.mem_map_of_mem (List.mem_of_mem_filter hi)
  obtain ⟨closing, hclose, hcloses⟩ := closeEnd_layout test hy
  refine ⟨(closeEnd_locals _ _).trans hlocals, _, hclose.insertEntry rfl,
    ⟨(closeEnd test b₁).nextLabel, ?_⟩, ?_, ?_⟩
  · rw [hopening]
  · have hinstrs : List.Forall₂ (fun i i' => i = i') b.instrs (y.slots.map (·.instr)) :=
      List.forall₂_map_right_iff.2 (hslots.imp fun i s hs => hs.1.symm)
    have hinstrs : b.instrs = y.slots.map (·.instr) := by
      rwa [List.forall₂_eq_eq_eq] at hinstrs
    rw [fallsOff_of_layout hy hclosing hopening hinstrs] at hcloses
    simpa [hclosing] using hcloses
  · refine ((List.forall₂_and_left _ _).2 ⟨fun i hi => hi, hslots⟩).imp fun i s hs => ?_
    exact ⟨hs.2.1, hs.2.2.trans (opsAt_returns (hnodup₁.sublist hadds.labels) _ hs.1)⟩

/-- A method is marked, unless it is skipped. -/
theorem weave_eq_ok {settings : Settings} {target : MethodTarget} {b b' : Body} {o : Outcome}
    (h : weave settings target b = .ok o b') :
    (skip? settings target).isSome ∧ b' = b ∨
      skip? settings target = none ∧ ∃ u, mark target.signature b = .ok u b' := by
  cases hskip : skip? settings target with
  | some reason =>
    simp only [weave, hskip] at h
    cases h
    exact .inl ⟨rfl, rfl⟩
  | none =>
    simp only [weave, hskip] at h
    exact .inr ⟨rfl, (countProbes_eq_ok h).1⟩

/-- The test weaver puts the start marker at the entry and the end marker before returns, and gives
a body that control can fall off a return of its own. -/
theorem weave_layout {settings : Settings} {target : MethodTarget} {b b' : Body} {o : Outcome}
    (h : weave settings target b = .ok o b') (hnodup : b'.labels.Nodup) :
    b'.locals = b.locals ∧ ∃ y : Layout, y.Lays b' ∧
      (∀ e ∈ y.opening, e.2.isMark) ∧
      (y.closing = [] ∨ fallsOff b ∧ ∃ l₁ l₂,
        y.closing = [(l₁, .probe (.testEnd target.signature)), (l₂, .ret none)]) ∧
      List.Forall₂ Instr.Marked b.instrs y.slots := by
  rcases weave_eq_ok h with ⟨-, rfl⟩ | ⟨-, u, hmark⟩
  · refine ⟨rfl, _, Layout.ofInstrs_lays b', by simp [Layout.ofInstrs], .inl rfl, ?_⟩
    rw [Layout.ofInstrs, List.forall₂_map_right_iff]
    exact List.forall₂_same.2 fun i _ => ⟨rfl, by simp [Slot.ops]⟩
  · obtain ⟨hlocals, y, hy, ⟨l, hopening⟩, hclosing, hslots⟩ := mark_layout hmark hnodup
    refine ⟨hlocals, y, hy, by simp [hopening, Operation.isMark, Probe.isMark],
      hclosing.imp (·.1) id, hslots.imp fun i s hs => ⟨hs.1, fun op hop => ?_⟩⟩
    rw [hs.2] at hop
    split at hop
    · rw [List.mem_singleton.1 hop]
      rfl
    · cases hop

end Lifecycle

end TraceWeave
