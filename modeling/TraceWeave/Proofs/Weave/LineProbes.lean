import TraceWeave.Proofs.Weave.KeptGuards
import TraceWeave.Proofs.Weave.LineAttribution
import TraceWeave.Proofs.Weave.MarkedTests
import TraceWeave.Proofs.Weave.Preservation

/-!
# Line probes fire when their anchors are reached

The product weaver puts the line probes of an anchor at the beginning of its slot, in the order of
their lines, and every jump to the anchor leads to the beginning of the slot.  So each of these
probes guards the anchor (`ProductPhase.exists_guards`).  The edits that come later keep it that
way, those of the test phases included (`Plan.exists_keeps_weaveRuns`), so each line probe fires
exactly when its anchor is reached (`Plan.lineProbe_fires`).
-/

namespace TraceWeave

/-- Members of a list at ascending positions are a part of it in this order. -/
theorem pair_sublist_of_lt {α : Type} {l : List α} {a a' : α} {k k' : Nat} (hlt : k < k')
    (ha : l[k]? = some a) (ha' : l[k']? = some a') : [a, a'].Sublist l := by
  have hfirst : a ∈ l.take k' := by
    refine List.mem_of_getElem? (i := k) ?_
    rw [List.getElem?_take_of_lt hlt, ha]
  have hlast : a' ∈ l.drop k' := by
    refine List.mem_of_getElem? (i := 0) ?_
    rw [List.getElem?_drop, Nat.add_zero, ha']
  rw [← List.take_append_drop k' l]
  exact (List.singleton_sublist.2 hfirst).append (List.singleton_sublist.2 hlast)

/-! ## Slots and guards -/

namespace Layout.Lays

variable {y : Layout} {b₀ b : Body} (hy : y.Lays b)
  (hslots : List.Forall₂ Instr.Carried b₀.instrs y.slots) {k : Nat} {s : Slot}
  (hs : y.slots[k]? = some s)

include hy hs

theorem getElem?_woven {n : Nat} {d : Label × Operation} (hd : s.woven[n]? = some d) :
    b.instrs[y.start k + n]? = some (wovenInstr d) := by
  obtain ⟨rest, hdrop⟩ := hy.drop_start_eq hs
  have hlt := (List.getElem?_eq_some_iff.1 hd).1
  rw [← List.getElem?_drop, hdrop, List.getElem?_append_left (by simpa using hlt),
    List.getElem?_map, hd, Option.map_some]

theorem exists_woven_of_getElem? {position : Nat} (hfirst : y.start k ≤ position)
    (hstop : position < y.start k + s.woven.length) :
    ∃ d ∈ s.woven, b.instrs[position]? = some (wovenInstr d) := by
  have hlt : position - y.start k < s.woven.length := by omega
  refine ⟨_, List.getElem_mem hlt, ?_⟩
  have hget := hy.getElem?_woven hs (List.getElem?_eq_getElem hlt)
  rwa [Nat.add_sub_cancel' hfirst] at hget

include hslots

/-- What was woven in before an instruction, all of it straight, makes a block up to it. -/
theorem block (hb₀ : b₀.defect? = none) (hnodup : b.labels.Nodup)
    (hstraight : ∀ op ∈ s.ops, op.IsStraight) {n : Nat} (hn : n ≤ s.woven.length) :
    b.Block (y.start k + n) (y.start k + s.woven.length) := by
  refine ⟨by omega, fun position i hfirst hstop hi => ?_, fun t ht position hposition => ?_⟩
  · obtain ⟨d', hd', hget⟩ := hy.exists_woven_of_getElem? hs (by omega) hstop
    obtain rfl : wovenInstr d' = i := Option.some.inj (hget.symm.trans hi)
    exact hstraight d'.2 (List.mem_map_of_mem hd')
  · rw [targets_eq_map hy hslots] at ht
    obtain ⟨t₀, ht₀, rfl⟩ := List.mem_map.1 ht
    obtain ⟨k₀, -, -, hjump⟩ := hy.jumpPosition?_of_mem_targets hslots hb₀ hnodup ht₀
    obtain rfl : y.start k₀ = position := Option.some.inj (hjump.symm.trans hposition)
    -- Another slot begins before this one or after its instruction.
    rcases Nat.lt_or_ge k k₀ with hlater | hearlier
    · have hle := y.start_mono hlater
      rw [start_succ hs] at hle
      exact .inr (by omega)
    · have hle := y.start_mono hearlier
      exact .inl (by omega)

/-- So it guards the instruction. -/
theorem guards (hb₀ : b₀.defect? = none) (hnodup : b.labels.Nodup)
    (hstraight : ∀ op ∈ s.ops, op.IsStraight) {d : Label × Operation} (hd : d ∈ s.woven) :
    b.Guards b₀.labels d.1 s.instr.label := by
  obtain ⟨n, hn⟩ := List.getElem?_of_mem hd
  have hlt := (List.getElem?_eq_some_iff.1 hn).1
  have hanchor := hy.getElem?_instr hs
  rw [Slot.ops, List.length_map] at hanchor
  have hlabels := hy.labels_nodup hnodup
  refine ⟨y.start k + n, y.start k + s.woven.length,
    { lt := by omega
      block := hy.block hslots hs hb₀ hnodup hstraight (Nat.le_of_lt hlt)
      probe := Body.getElem?_labels (hy.getElem?_woven hs hn)
      anchor := Body.getElem?_labels_eq_some.2 ⟨_, hanchor, rfl⟩
      inserted := fun l hl => ?_ }⟩
  obtain ⟨position, hfirst, hstop, hl⟩ := Body.mem_line.1 hl
  obtain ⟨d', hd', hget⟩ := hy.exists_woven_of_getElem? hs (by omega) hstop
  rw [Body.getElem?_labels hget, Option.some.injEq] at hl
  rw [← hl, ← origins_eq_labels hslots]
  exact fun hmem =>
    woven_ne_origin hlabels (mem_woven_of_mem_slot (List.mem_of_getElem? hs) hd') hmem rfl

end Layout.Lays

/-! ## Line probes in the product phase -/

namespace Product

theorem Branches.isStraight {target : MethodTarget} {branches : List (Label × UInt32 × UInt32)}
    {declared available : List Local} {i i' : Instr} {ops : List Operation}
    (h : Branches target branches declared available i ops i') : ∀ op ∈ ops, op.IsStraight := by
  rcases h with ⟨-, rfl, -⟩ | ⟨line, index, -, condition, t, before, s, -, -, hs, -, rfl, -⟩
  · exact fun op hop => by cases hop
  · intro op hop
    rcases List.mem_append.1 hop with hop | hop
    · exact (isPart_of_mem_script hs op hop).isStraight
    · rw [List.mem_singleton.1 hop]
      trivial

theorem pairwise_linesIn (settings : Settings) (selection : LineSelection) (target : MethodTarget)
    (b : Body) : (linesIn settings selection target b).Pairwise (· < ·) := by
  unfold linesIn matchedLines
  cases productSkip? settings target with
  | some reason => exact .nil
  | none =>
    dsimp only
    split
    · exact .nil
    · exact (selection.pairwise_linesFor target.file).filter _

/-- The lines that were added are in ascending order. -/
theorem Reserves.pairwise {file : String} {b : Body} {lines : List UInt32}
    {added : List (UInt32 × Label)} {before after : LineLedger}
    (h : Reserves file (anchors b lines) added before after) (hlines : lines.Pairwise (· < ·)) :
    (added.map (·.1)).Pairwise (· < ·) := by
  have hsublist := h.listed.map (·.1)
  rw [anchors, List.map_map, List.map_map] at hsublist
  have hlines' : lines.map ((fun e : UInt32 × Option Label => e.1) ∘
      fun n => (n, (AnchorFinder.ofBody b).find? n)) = lines := List.map_id lines
  rw [hlines'] at hsublist
  exact hlines.sublist hsublist

/-- The lines whose probes were added before an instruction, in order. -/
def linesAt (added : List (UInt32 × Label)) (label : Label) : List UInt32 :=
  (added.filter fun e => e.2 = label).map (·.1)

theorem mem_added_of_linesAt {added : List (UInt32 × Label)} {label : Label} {n : Nat}
    {line : UInt32} (hline : (linesAt added label)[n]? = some line) : (line, label) ∈ added := by
  obtain ⟨a, ha, rfl⟩ := List.mem_map.1 (List.mem_of_getElem? hline)
  obtain ⟨ha, hlabel⟩ := List.mem_filter.1 ha
  rwa [← of_decide_eq_true hlabel]

end Product

namespace ProductPhase

variable {plan : Plan} {target : MethodTarget} {w w' : Workpiece} {added : List (UInt32 × Label)}
  {b : Body} {y y' : Layout} (h : ProductPhase plan target w w' added b y y')

include h

theorem isStraight_of_slot {s : Slot} (hs : s ∈ y.slots) : ∀ op ∈ s.ops, op.IsStraight := by
  obtain ⟨i, -, ops, hops, hbranches⟩ := exists_of_mem_forall₂ h.slots hs
  intro op hop
  rw [hops] at hop
  rcases List.mem_append.1 hop with hop | hop
  · obtain ⟨e, -, rfl⟩ := List.mem_map.1 hop
    trivial
  · exact hbranches.isStraight op hop

theorem pairwise_linesAt (label : Label) : (Product.linesAt added label).Pairwise (· < ·) :=
  (h.reserves.pairwise (Product.pairwise_linesIn _ _ _ _)).sublist (List.filter_sublist.map _)

/-- In its slot, an inserted line probe has the place that its line has among those of the slot. -/
theorem exists_place_of_lineProbe {e : Instr} (he : e ∈ b.instrs) (hnew : e.label ∉ w.body.labels)
    {file : String} {line : UInt32} (hop : e.op = .probe (.lineReached file line)) :
    ∃ (k : Nat) (s : Slot) (n : Nat) (d : Label × Operation), y.slots[k]? = some s ∧
      s.woven[n]? = some d ∧ wovenInstr d = e ∧
      (Product.linesAt added s.instr.label)[n]? = some line := by
  obtain ⟨rfl, s, hs, d, hd, rfl, -⟩ := h.exists_slot_of_lineProbe he hnew hop
  obtain ⟨k, hk⟩ := List.getElem?_of_mem hs
  obtain ⟨n, hn⟩ := List.getElem?_of_mem hd
  obtain ⟨i, -, ops, hops, hbranches⟩ := exists_of_mem_forall₂ h.slots hs
  refine ⟨k, s, n, d, hk, hn, rfl, ?_⟩
  have hget : s.ops[n]? = some (.probe (.lineReached target.file line)) := by
    rw [Slot.ops, List.getElem?_map, hn, Option.map_some, ← hop, wovenInstr_op]
  rw [hops, List.getElem?_append] at hget
  split at hget
  · rw [Product.lineProbes, List.getElem?_map, Option.map_eq_some_iff] at hget
    obtain ⟨a, ha, heq⟩ := hget
    cases heq
    rw [Product.linesAt, hbranches.carried.label, List.getElem?_map, ha, Option.map_some]
  · exact absurd (List.mem_of_getElem? hget) (Product.lineReached_not_mem_of_branches hbranches _ _)

/-- The anchor of an added line. -/
theorem find?_of_mem_added {line : UInt32} {label : Label} (hadded : (line, label) ∈ added) :
    (AnchorFinder.ofBody w.body).find? line = some label := by
  obtain ⟨n, -, heq⟩ := List.mem_map.1 (h.reserves.sound _ hadded)
  obtain ⟨rfl, hfind⟩ := Prod.mk.inj heq
  exact hfind

/-- When the product weaver is done, an inserted line probe guards the anchor of its line. -/
theorem exists_guards (hconsistent : w.body.defect? = none) {e : Instr} (he : e ∈ b.instrs)
    (hnew : e.label ∉ w.body.labels) {file : String} {line : UInt32}
    (hop : e.op = .probe (.lineReached file line)) :
    ∃ anchor ∈ w.body.labels, (AnchorFinder.ofBody w.body).find? line = some anchor ∧
      b.Guards w.body.labels e.label anchor := by
  obtain ⟨k, s, n, d, hs, hd, rfl, hline⟩ := h.exists_place_of_lineProbe he hnew hop
  have hmem := List.mem_of_getElem? hs
  refine ⟨s.instr.label, h.origins_eq ▸ Layout.mem_origins_of_mem hmem,
    h.find?_of_mem_added (Product.mem_added_of_linesAt hline), ?_⟩
  exact h.lays.guards h.carried hs hconsistent h.nodup (h.isStraight_of_slot hmem)
    (List.mem_of_getElem? hd)

/-- When the product weaver is done, the line probes of an anchor stand in the order of their
lines. -/
theorem pair_sublist_of_lt {e e' : Instr} (he : e ∈ b.instrs) (he' : e' ∈ b.instrs)
    (hnew : e.label ∉ w.body.labels) (hnew' : e'.label ∉ w.body.labels) {file file' : String}
    {line line' : UInt32} (hop : e.op = .probe (.lineReached file line))
    (hop' : e'.op = .probe (.lineReached file' line')) {anchor : Label}
    (hanchor : (AnchorFinder.ofBody w.body).find? line = some anchor)
    (hanchor' : (AnchorFinder.ofBody w.body).find? line' = some anchor) (hlt : line < line') :
    [e.label, e'.label].Sublist b.labels := by
  obtain ⟨k, s, n, d, hs, hd, rfl, hline⟩ := h.exists_place_of_lineProbe he hnew hop
  obtain ⟨k', s', n', d', hs', hd', rfl, hline'⟩ := h.exists_place_of_lineProbe he' hnew' hop'
  -- Both probes stand in the slot of the anchor.
  have hlabel := h.find?_of_mem_added (Product.mem_added_of_linesAt hline)
  have hlabel' := h.find?_of_mem_added (Product.mem_added_of_linesAt hline')
  rw [hanchor, Option.some.injEq] at hlabel
  rw [hanchor', Option.some.injEq] at hlabel'
  obtain rfl : k = k' := by
    have horigins := Layout.origins_nodup h.layout_nodup
    refine eq_of_getElem?_eq_some horigins (a := anchor) ?_ ?_
    · rw [Layout.origins, List.getElem?_map, hs, Option.map_some, ← hlabel]
    · rw [Layout.origins, List.getElem?_map, hs', Option.map_some, ← hlabel']
  obtain rfl : s = s' := Option.some.inj (hs.symm.trans hs')
  have hposition : n < n' := by
    obtain ⟨hn, rfl⟩ := List.getElem?_eq_some_iff.1 hline
    obtain ⟨hn', rfl⟩ := List.getElem?_eq_some_iff.1 hline'
    by_contra hge
    rcases Nat.lt_or_eq_of_le (Nat.le_of_not_lt hge) with hearlier | rfl
    · have hsorted := List.pairwise_iff_getElem.1 (h.pairwise_linesAt s.instr.label)
      exact absurd (hsorted n' n hn' hn hearlier) (UInt32.lt_asymm hlt)
    · exact UInt32.lt_irrefl _ hlt
  exact TraceWeave.pair_sublist_of_lt (Nat.add_lt_add_left hposition (y.start k))
    (Body.getElem?_labels (h.lays.getElem?_woven hs hd))
    (Body.getElem?_labels (h.lays.getElem?_woven hs hd'))

end ProductPhase

/-! ## Later weaving -/

/-- Labels stay distinct, what guards an anchor goes on guarding it, and no line probe comes in. -/
structure Body.KeepsLineProbes (b b' : Body) : Prop where
  nodup : b.labels.Nodup → b'.labels.Nodup
  guards : b.KeepsGuards b'
  lineProbes : b.labels.Nodup → ∀ e ∈ b'.instrs, ∀ file line,
    e.op = .probe (.lineReached file line) →
      ∃ i ∈ b.instrs, i.label = e.label ∧ i.op = .probe (.lineReached file line)

namespace Body.KeepsLineProbes

variable {b b₁ b₂ : Body}

theorem refl (b : Body) : b.KeepsLineProbes b :=
  ⟨id, keepsGuards_editClosed.refl b, fun _ e he _ _ hop => ⟨e, he, rfl, hop⟩⟩

theorem trans (h : b.KeepsLineProbes b₁) (h₁ : b₁.KeepsLineProbes b₂) : b.KeepsLineProbes b₂ where
  nodup hnodup := h₁.nodup (h.nodup hnodup)
  guards := h.guards.trans h₁.guards
  lineProbes hnodup e he file line hop := by
    obtain ⟨i₁, hi₁, hlabel₁, hop₁⟩ := h₁.lineProbes (h.nodup hnodup) e he file line hop
    obtain ⟨i, hi, hlabel, hop⟩ := h.lineProbes hnodup i₁ hi₁ file line hop₁
    exact ⟨i, hi, hlabel.trans hlabel₁, hop⟩

end Body.KeepsLineProbes

theorem ProductPhase.keepsLineProbes {plan : Plan} {target : MethodTarget} {w w' : Workpiece}
    {added : List (UInt32 × Label)} {b : Body} {y y' : Layout}
    (h : ProductPhase plan target w w' added b y y') : b.KeepsLineProbes w'.body where
  nodup _ := h.nodup'
  guards := by
    obtain ⟨outcome, hfield⟩ := h.woven'
    exact Body.keepsGuards_editClosed.stepClosed.fieldAccess hfield
  lineProbes _ _ he _ _ hop := h.exists_instr_of_lineProbe he hop

/-- The test weaver inserts no line probes. -/
theorem Lifecycle.exists_instr_of_lineProbe {settings : Settings} {target : MethodTarget}
    {b b' : Body} {o : Outcome} (h : weave settings target b = .ok o b') (hnodup : b'.labels.Nodup)
    {e : Instr} (he : e ∈ b'.instrs) {file : String} {line : UInt32}
    (hop : e.op = .probe (.lineReached file line)) :
    ∃ i ∈ b.instrs, i.label = e.label ∧ i.op = .probe (.lineReached file line) := by
  obtain ⟨hmarked, hskipped⟩ := weave_cases h
  cases htest : settings.marksTest target.owner target.method with
  | false =>
    rw [hskipped htest] at he
    exact ⟨e, he, rfl, hop⟩
  | true =>
    obtain ⟨u, hmark⟩ := hmarked htest
    obtain ⟨-, y, hy, ⟨l, hopening⟩, hclosing, hslots⟩ := mark_layout hmark hnodup
    rw [hy.instrs_eq, Layout.instrs, hopening] at he
    rcases List.mem_append.1 he with he | he
    · rcases List.mem_append.1 he with he | he
      · rw [List.map_singleton, List.mem_singleton] at he
        rw [he] at hop
        cases hop
      · obtain ⟨i, hi, s, -, ⟨hinstr, hops⟩, ⟨d, hd, rfl⟩ | rfl⟩ :=
          exists_of_mem_flatMap_emit hslots he
        · have hmem : d.2 ∈ s.ops := List.mem_map_of_mem hd
          rw [wovenInstr_op] at hop
          rw [hops, hop] at hmem
          split at hmem <;> simp at hmem
        · rw [hinstr] at hop ⊢
          exact ⟨i, hi, rfl, Operation.eq_probe_of_retarget hop⟩
    · rcases hclosing with ⟨hclosing, -⟩ | ⟨-, l₁, l₂, hclosing⟩
      · rw [hclosing] at he
        cases he
      · rw [hclosing] at he
        simp only [List.map_cons, List.map_nil, List.mem_cons, List.not_mem_nil, or_false] at he
        rcases he with rfl | rfl <;> cases hop

namespace Plan

theorem keepsLineProbes_weaveMethod (plan : Plan) (c : Class) (m : Method) (s : Session) :
    m.body.KeepsLineProbes (plan.weaveMethod testWeavers c m s).1.body := by
  unfold weaveMethod
  split
  · exact .refl _
  · next w happly =>
    obtain ⟨outcome, w₁, others, happly, hdefect, hrest, -⟩ := applyAll_cons_eq_ok.1 happly
    cases hrest
    obtain ⟨hweave, -⟩ := onBody_eq_ok happly
    have hnodup := Body.labels_nodup_of_defect? hdefect
    exact ⟨fun _ => hnodup, Body.keepsGuards_editClosed.stepClosed.lifecycle hweave,
      fun _ e he file line hop => Lifecycle.exists_instr_of_lineProbe hweave hnodup he hop⟩

/-- Any number of test phases keeps line probes and their guards. -/
theorem exists_keeps_weaveRuns (tests : List Plan) {p : Program} {k : Nat} {m : Method}
    (hm : (p.classes.flatMap (·.methods))[k]? = some m) (s : Session) :
    ∃ m', ((weaveRuns (tests.map (·, testWeavers)) p s).1.classes.flatMap (·.methods))[k]? =
        some m' ∧ m.body.KeepsLineProbes m'.body := by
  induction tests generalizing p s m with
  | nil => exact ⟨m, hm, .refl _⟩
  | cons test rest ih =>
    obtain ⟨c, hk⟩ := Program.exists_methodList hm
    have hmethod := test.getElem?_methods_weave testWeavers s hk
    obtain ⟨m', hm', hkeeps⟩ := ih hmethod (test.weave testWeavers p s).2.1
    exact ⟨m', hm', (test.keepsLineProbes_weaveMethod c m _).trans hkeeps⟩

/-- A method with an inserted line probe has gone through the product phase, and what came later
keeps line probes. -/
theorem exists_productPhase_of_lineProbe {plan : Plan} {tests : List Plan} {p : Program}
    {s : Session} {k : Nat} {m m' : Method} (hm : (p.classes.flatMap (·.methods))[k]? = some m)
    (hm' : ((weaveRuns ((plan, productWeavers) :: tests.map (·, testWeavers)) p s).1.classes.flatMap
      (·.methods))[k]? = some m')
    (hlabels : m.body.labels.Nodup) {e : Instr} (he : e ∈ m'.body.instrs)
    (hnew : e.label ∉ m.body.labels) {file : String} {line : UInt32}
    (hop : e.op = .probe (.lineReached file line)) :
    ∃ target ledger w added b y y',
      ProductPhase plan target ⟨m.body, ledger⟩ w added b y y' ∧ b.KeepsLineProbes m'.body := by
  obtain ⟨c, hk⟩ := Program.exists_methodList hm
  have hmethod := plan.getElem?_methods_weave productWeavers s hk
  obtain ⟨_, hlast, hkeeps⟩ :=
    exists_keeps_weaveRuns tests hmethod (plan.weave productWeavers p s).2.1
  obtain rfl := Option.some.inj (hlast.symm.trans hm')
  unfold weaveMethod at hkeeps
  split at hkeeps
  · -- A method that was rolled back has no new line probe.
    obtain ⟨i, hi, hlabel, -⟩ := hkeeps.lineProbes hlabels e he file line hop
    exact absurd (hlabel ▸ List.mem_map_of_mem hi) hnew
  · next happly =>
    obtain ⟨added, b, y, y', hphase⟩ := exists_productPhase happly
    exact ⟨_, _, _, added, b, y, y', hphase, hphase.keepsLineProbes.trans hkeeps⟩

/-! ### Runs of woven methods -/

/-- A line probe fires exactly when its anchor is reached.  When a program goes through the product
phase and any number of test phases, an inserted line probe in a method that was consistent belongs
to the anchor that its line had in the method.  Whatever the calls in it do, in every run of the
woven method the probe is executed exactly once right before each execution of the anchor, past
inserted instructions only, and leads to the anchor unless the run stops with a fault; and of two
probes with the same anchor, the one with the lesser line fires first. -/
theorem lineProbe_fires (plan : Plan) (tests : List Plan) {p : Program} {s : Session} {k : Nat}
    {m m' : Method} (hm : (p.classes.flatMap (·.methods))[k]? = some m)
    (hm' : ((weaveRuns ((plan, productWeavers) :: tests.map (·, testWeavers)) p s).1.classes.flatMap
      (·.methods))[k]? = some m')
    (hconsistent : m.body.defect? = none) {e : Instr} (he : e ∈ m'.body.instrs)
    (hnew : e.label ∉ m.body.labels) {file : String} {line : UInt32}
    (hop : e.op = .probe (.lineReached file line)) :
    ∃ anchor ∈ m.body.labels, (AnchorFinder.ofBody m.body).find? line = some anchor ∧
      ∀ (limit : Nat) (call : Call) (rounds : Nat) (frame : Frame) (state : MachineState),
        (m'.body.watch limit call rounds frame 0 state).FiresAt m.body.labels e.label anchor ∧
        ∀ e' ∈ m'.body.instrs, e'.label ∉ m.body.labels → ∀ file' line',
          e'.op = .probe (.lineReached file' line') →
          (AnchorFinder.ofBody m.body).find? line' = some anchor → line < line' →
            (m'.body.watch limit call rounds frame 0 state).FiresInOrder m.body.labels e.label
              e'.label anchor := by
  have hlabels := Body.labels_nodup_of_defect? hconsistent
  obtain ⟨target, ledger, w, added, b, y, y', hphase, hkeeps⟩ :=
    exists_productPhase_of_lineProbe hm hm' hlabels he hnew hop
  have hnodup := hkeeps.nodup hphase.nodup
  have hguards {probe anchor : Label} (hguard : b.Guards m.body.labels probe anchor) :
      m'.body.Guards m.body.labels probe anchor :=
    hkeeps.guards.guards hnodup hphase.consistent hphase.labels_subset hguard
  obtain ⟨i, hi, hilabel, hiop⟩ := hkeeps.lineProbes hphase.nodup e he file line hop
  rw [← hilabel] at hnew ⊢
  obtain ⟨anchor, hmem, hanchor, hguard⟩ := hphase.exists_guards hconsistent hi hnew hiop
  refine ⟨anchor, hmem, hanchor, fun limit call rounds frame state =>
    ⟨(hguards hguard).firesAt hnodup limit call rounds frame state hmem, ?_⟩⟩
  intro e' he' hnew' file' line' hop' hanchor' hlt
  obtain ⟨i', hi', hilabel', hiop'⟩ := hkeeps.lineProbes hphase.nodup e' he' file' line' hop'
  rw [← hilabel'] at hnew' ⊢
  obtain ⟨anchor₁, -, hanchor₁, hguard'⟩ := hphase.exists_guards hconsistent hi' hnew' hiop'
  obtain rfl : anchor = anchor₁ := Option.some.inj (hanchor'.symm.trans hanchor₁)
  have horder := hphase.pair_sublist_of_lt hi hi' hnew hnew' hiop hiop' hanchor hanchor' hlt
  exact (hguards hguard).firesInOrder hnodup limit call rounds frame state (hguards hguard')
    (horder.trans hkeeps.guards.labels)

/-- A plan that requests lines 4 and 5. -/
def requestingFourAndFive : Plan := { lines := ⟨[("Foo.java", ⟨[⟨4, 5⟩]⟩)]⟩ }

/-- A method that jumps to itself on line 5. -/
def circling : Method :=
  { name := "circle", returnType := .void, body := { instrs := [⟨⟨0⟩, 5, .goto ⟨0⟩⟩] } }

/-- The method with the probes that it gets. -/
def circlingProbed : Method :=
  { circling with
    body := { instrs := [⟨⟨1⟩, 0, .probe (.lineReached "Foo.java" 4)⟩,
      ⟨⟨2⟩, 0, .probe (.lineReached "Foo.java" 5)⟩, ⟨⟨0⟩, 5, .goto ⟨1⟩⟩] } }

/-- The jump is the anchor of both lines, and both probes fire in every round. -/
theorem lineProbe_fires_circling :
    ((weaveRuns [(requestingFourAndFive, productWeavers), ({}, testWeavers)]
        ⟨[lone circling]⟩ ∅).1.classes.flatMap (·.methods))[0]? = some circlingProbed ∧
      (∀ limit call rounds frame state,
        (circlingProbed.body.watch limit call rounds frame 0 state).FiresAt [⟨0⟩] ⟨1⟩ ⟨0⟩ ∧
          (circlingProbed.body.watch limit call rounds frame 0 state).FiresInOrder [⟨0⟩] ⟨1⟩ ⟨2⟩
            ⟨0⟩) ∧
      ∀ call, (circlingProbed.body.watch 7 call 8 ⟨"Foo.circle", ∅⟩ 0 {}).labels =
        [⟨1⟩, ⟨2⟩, ⟨0⟩, ⟨1⟩, ⟨2⟩, ⟨0⟩, ⟨1⟩] := by
  have hmethod : ((Program.mk [lone circling]).classes.flatMap (·.methods))[0]? = some circling :=
    rfl
  have hwoven : ((weaveRuns [(requestingFourAndFive, productWeavers), ({}, testWeavers)]
      ⟨[lone circling]⟩ ∅).1.classes.flatMap (·.methods))[0]? = some circlingProbed := rfl
  refine ⟨hwoven, fun limit call rounds frame state => ?_, fun call => rfl⟩
  obtain ⟨anchor, -, hanchor, hfires⟩ := lineProbe_fires requestingFourAndFive [{}] hmethod hwoven
    (by decide) List.mem_cons_self (by decide) rfl
  obtain rfl : (⟨0⟩ : Label) = anchor := Option.some.inj hanchor
  obtain ⟨hfires, horder⟩ := hfires limit call rounds frame state
  exact ⟨hfires, horder _ (List.mem_cons_of_mem _ List.mem_cons_self) (by decide) _ _ rfl rfl
    (by decide)⟩

end Plan

end TraceWeave
