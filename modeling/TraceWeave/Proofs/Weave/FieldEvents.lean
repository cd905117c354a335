import Mathlib.Data.String.Basic
import TraceWeave.Proofs.Expr.Induction
import TraceWeave.Proofs.Machine.Steps
import TraceWeave.Proofs.Weave.LineProbes

/-!
# Field probes match the reads

The field weaver puts a probe for each monitored field that an assignment reads right before the
assignment, in the order of the names and each name once, and inserts nothing else
(`FieldAccess.groups_weave`).  Since every jump to the assignment leads to the first of its probes,
and nothing else leads between them, every execution of the assignment comes right after the events
of exactly these probes (`FieldAccess.probes_match_reads`).
-/

namespace TraceWeave

/-! ## Reads -/

/-- A field is read somewhere in an expression. -/
inductive Expr.Reads (f : FieldRef) : Expr → Prop
  | field : Reads f (.field f)
  | unary {op : UnaryOp} {e : Expr} (h : Reads f e) : Reads f (.unary op e)
  | left {op : BinaryOp} {l r : Expr} (h : Reads f l) : Reads f (.binary op l r)
  | right {op : BinaryOp} {l r : Expr} (h : Reads f r) : Reads f (.binary op l r)
  | arg {callee : Callee} {args : List Expr} {e : Expr} (he : e ∈ args) (h : Reads f e) :
      Reads f (.call callee args)

theorem Expr.mem_fieldReadsOf {f : FieldRef} {args : List Expr} :
    f ∈ fieldReadsOf args ↔ ∃ e ∈ args, f ∈ e.fieldReads := by
  induction args with
  | nil => simp [fieldReadsOf]
  | cons e rest ih => simp [fieldReadsOf, ih]

theorem Expr.mem_fieldReads {f : FieldRef} {e : Expr} : f ∈ e.fieldReads ↔ e.Reads f := by
  induction e with
  | value v => exact iff_of_false List.not_mem_nil nofun
  | var x => exact iff_of_false List.not_mem_nil nofun
  | unmapped description ty => exact iff_of_false List.not_mem_nil nofun
  | field g =>
    rw [fieldReads, List.mem_singleton]
    constructor
    · rintro rfl
      exact .field
    · rintro ⟨⟩
      rfl
  | unary op e ih =>
    rw [fieldReads, ih]
    exact ⟨.unary, fun | .unary h => h⟩
  | binary op l r ihl ihr =>
    rw [fieldReads, List.mem_append, ihl, ihr]
    constructor
    · rintro (h | h)
      · exact .left h
      · exact .right h
    · intro h
      cases h with
      | left h => exact .inl h
      | right h => exact .inr h
  | call callee args ih =>
    rw [fieldReads, mem_fieldReadsOf]
    constructor
    · rintro ⟨e, he, h⟩
      exact .arg he ((ih e he).1 h)
    · intro h
      cases h with
      | arg he h => exact ⟨_, he, (ih _ he).2 h⟩

theorem pairwise_insertAscending {a : String} {l : List String} (h : l.Pairwise (· < ·)) :
    (insertAscending a l).Pairwise (· < ·) := by
  induction h with
  | nil => exact List.pairwise_singleton _ _
  | @cons b rest hb hrest ih =>
    unfold insertAscending
    split
    · next hlt =>
      refine .cons (fun c hc => ?_) (.cons hb hrest)
      rcases List.mem_cons.1 hc with rfl | hc
      · exact hlt
      · exact hlt.trans (hb c hc)
    · split
      · exact .cons hb hrest
      · next hlt hne =>
        refine .cons (fun c hc => ?_) ih
        rcases mem_insertAscending.1 hc with rfl | hc
        · exact lt_of_le_of_ne (le_of_not_gt hlt) (Ne.symm hne)
        · exact hb c hc

theorem pairwise_ascending (l : List String) : (ascending l).Pairwise (· < ·) := by
  unfold ascending
  induction l with
  | nil => exact .nil
  | cons a rest ih => exact pairwise_insertAscending ih

theorem FieldAccess.mem_monitoredReads {fields : FieldSelection} {e : Expr} {name : String} :
    name ∈ monitoredReads fields e ↔
      ∃ f, e.Reads f ∧ fields.monitors f = true ∧ f.qualifiedName = name := by
  simp only [monitoredReads, mem_ascending, List.mem_map, List.mem_filter, Expr.mem_fieldReads,
    and_assoc]

/-! ## What stands before instructions -/

/-- Divides instructions at those with old labels: each of these comes with the operations of the
other instructions right before it, and what comes after the last one is left. -/
def groups (old : List Label) : List Instr → List (List Operation × Label) × List Operation
  | [] => ([], [])
  | i :: rest =>
    if i.label ∈ old then (([], i.label) :: (groups old rest).1, (groups old rest).2)
    else
      match groups old rest with
      | ((ops, label) :: others, last) => ((i.op :: ops, label) :: others, last)
      | ([], last) => ([], i.op :: last)

/-- A row of new instructions makes one group with the old instruction after it. -/
theorem groups_append_cons {old : List Label} {row : List Instr} (hrow : ∀ j ∈ row, j.label ∉ old)
    {i : Instr} (hi : i.label ∈ old) (rest : List Instr) :
    groups old (row ++ i :: rest) =
      ((row.map (·.op), i.label) :: (groups old rest).1, (groups old rest).2) := by
  induction row with
  | nil =>
    rw [List.nil_append, groups, if_pos hi]
    rfl
  | cons j row ih =>
    rw [List.cons_append, groups, if_neg (hrow j (by simp)), ih fun k hk => hrow k (by simp [hk])]
    rfl

namespace Layout.Lays

variable {y : Layout} {b₀ b : Body} (hy : y.Lays b)

include hy

/-- What was woven in before an instruction stands in a line from the start of its slot. -/
theorem line_start {k : Nat} {s : Slot} (hs : y.slots[k]? = some s) :
    b.line (y.start k) (y.start k + s.woven.length) = s.woven.map (·.1) := by
  obtain ⟨rest, hdrop⟩ := hy.drop_start_eq hs
  have hlabels : b.labels.drop (y.start k) = s.woven.map (·.1) ++
      (s.instr.retarget y.destination :: rest).map (·.label) := by
    rw [Body.labels, ← List.map_drop, hdrop, List.map_append, List.map_map]
    rfl
  rw [Body.line, List.drop_take, Nat.add_sub_cancel_left, hlabels, List.take_left']
  exact List.length_map _

variable (hslots : List.Forall₂ Instr.Carried b₀.instrs y.slots) (hnodup : b.labels.Nodup)
  (hopening : y.opening = []) (hclosing : y.closing = [])

include hslots hnodup hopening hclosing

/-- If nothing was woven in at the entry or at the end, the slots are the groups. -/
theorem groups_eq :
    groups b₀.labels b.instrs = (y.slots.map fun s => (s.ops, s.instr.label), []) := by
  have hlabels := hy.labels_nodup hnodup
  have horigins := origins_eq_labels hslots
  rw [hy.instrs_eq, instrs, hopening, hclosing, List.map_nil, List.nil_append, List.append_nil]
  have hall : ∀ slots : List Slot, (∀ s ∈ slots, s ∈ y.slots) →
      groups b₀.labels (slots.flatMap (Slot.emit y.destination)) =
        (slots.map fun s => (s.ops, s.instr.label), []) := by
    intro slots hmem
    induction slots with
    | nil => rfl
    | cons s rest ih =>
      have hs := hmem s (by simp)
      rw [List.flatMap_cons, Slot.emit, List.append_assoc, List.singleton_append,
        groups_append_cons (fun j hj => ?_) (horigins ▸ mem_origins_of_mem hs),
        ih fun r hr => hmem r (by simp [hr])]
      · simp [Slot.ops, Function.comp_def]
      · obtain ⟨e, he, rfl⟩ := List.mem_map.1 hj
        exact fun h => woven_ne_origin hlabels (mem_woven_of_mem_slot hs he) (horigins ▸ h) rfl
  exact hall y.slots fun s hs => hs

/-- An instruction that is not old stands in a slot, before its instruction. -/
theorem exists_place {position : Nat} {m : Label} (hm : b.labels[position]? = some m)
    (hnew : m ∉ b₀.labels) :
    ∃ (j : Nat) (r : Slot) (n : Nat), y.slots[j]? = some r ∧ n < r.woven.length ∧
      position = y.start j + n := by
  have hmem : m ∈ y.labels := hy.labels_eq ▸ List.mem_of_getElem? hm
  rw [y.labels_perm.mem_iff, List.mem_append, origins_eq_labels hslots, woven, hopening, hclosing,
    List.nil_append, List.append_nil] at hmem
  obtain ⟨e, he, rfl⟩ := List.mem_map.1 (hmem.resolve_left hnew)
  obtain ⟨r, hr, he⟩ := List.mem_flatMap.1 he
  obtain ⟨j, hj⟩ := List.getElem?_of_mem hr
  obtain ⟨n, hn⟩ := List.getElem?_of_mem he
  exact ⟨j, r, n, hj, (List.getElem?_eq_some_iff.1 hn).1,
    eq_of_getElem?_eq_some hnodup hm (Body.getElem?_labels (hy.getElem?_woven hj hn))⟩

variable (hb₀ : b₀.defect? = none) (hstraight : ∀ s ∈ y.slots, ∀ op ∈ s.ops, op.IsStraight)

include hb₀ hstraight

/-- Control comes to the start of a slot from an old instruction. -/
theorem mem_labels_of_walks {before after : List Label} {m l : Label} {fails : Bool}
    (hwalk : b.Walks 0 (before ++ m :: l :: after) fails) {k : Nat}
    (hl : b.labels[y.start k]? = some l) : m ∈ b₀.labels := by
  by_contra hnew
  obtain ⟨position, hrest⟩ := hwalk.exists_rest
  obtain ⟨j, r, n, hj, hn, rfl⟩ :=
    hy.exists_place hslots hnodup hopening hclosing hrest.getElem?_position hnew
  cases hrest with
  | step hi hgoes hrest =>
    have hblock := hy.block hslots hj hb₀ hnodup (hstraight r (List.mem_of_getElem? hj))
      (Nat.zero_le _)
    have hnext := hblock.position_of_goesOn hi (by omega) (by omega) hgoes
    have hstart := eq_of_getElem?_eq_some hnodup hl hrest.getElem?_position
    -- The next position is still in the slot, and not where a slot begins.
    rcases Nat.lt_or_ge j k with hlater | hearlier
    · have hle := y.start_mono hlater
      rw [start_succ hj] at hle
      omega
    · have hle := y.start_mono hearlier
      omega

/-- Among the new instructions, exactly those of its slot are executed right before an old
instruction, in order. -/
theorem rtakeWhile_eq {k : Nat} {s : Slot} (hs : y.slots[k]? = some s) {before after : List Label}
    {fails : Bool} (hwalk : b.Walks 0 (before ++ s.instr.label :: after) fails) :
    before.rtakeWhile (· ∉ b₀.labels) = s.woven.map (·.1) := by
  have hlabels := hy.labels_nodup hnodup
  have hmem := List.mem_of_getElem? hs
  have hblock := hy.block hslots hs hb₀ hnodup (hstraight s hmem) (Nat.zero_le _)
  have hanchor := Body.getElem?_labels (hy.getElem?_instr hs)
  rw [Slot.ops, List.length_map, Instr.retarget_label] at hanchor
  obtain ⟨front, rfl⟩ := hwalk.line_suffix hblock hnodup (.inl (Nat.zero_le _)) (by omega)
    (Nat.le_refl _) hanchor
  rw [Nat.add_zero, hy.line_start hs] at hwalk ⊢
  rw [rtakeWhile_append_of_pos fun l hl => ?_]
  · -- What is executed before the slot is old.
    suffices h : front.rtakeWhile (· ∉ b₀.labels) = [] by rw [h, List.nil_append]
    rcases List.eq_nil_or_concat front with rfl | ⟨front, m, rfl⟩
    · rfl
    rw [List.concat_eq_append] at hwalk ⊢
    refine List.rtakeWhile_concat_neg _ _ _ fun hnew => of_decide_eq_true hnew ?_
    obtain ⟨l, rest, hsplit, hl⟩ : ∃ l rest, s.woven.map (·.1) ++ s.instr.label :: after =
        l :: rest ∧ b.labels[y.start k]? = some l := by
      cases hwoven : s.woven with
      | nil => exact ⟨_, _, rfl, by rwa [hwoven] at hanchor⟩
      | cons e rest =>
        have hfirst := hy.getElem?_woven hs (n := 0) (d := e) (by rw [hwoven]; rfl)
        exact ⟨_, _, rfl, Body.getElem?_labels hfirst⟩
    rw [List.append_assoc, hsplit, List.append_assoc, List.singleton_append] at hwalk
    exact hy.mem_labels_of_walks hslots hnodup hopening hclosing hb₀ hstraight hwalk hl
  · obtain ⟨e, he, rfl⟩ := List.mem_map.1 hl
    exact decide_eq_true fun h => woven_ne_origin hlabels (mem_woven_of_mem_slot hmem he)
      ((origins_eq_labels hslots).symm ▸ h) rfl

end Layout.Lays

/-! ## Field probes -/

namespace FieldAccess

variable {settings : Settings} {fields : FieldSelection} {target : MethodTarget} {b b' : Body}
  {o : Outcome}

/-- The names of the monitored fields that an instruction reads if it is an assignment. -/
def namesOf (fields : FieldSelection) (i : Instr) : List String := (readsOf fields i).map (·.field)

theorem pairwise_namesOf (i : Instr) : (namesOf fields i).Pairwise (· < ·) := by
  unfold namesOf readsOf
  cases i.op with
  | assign place value =>
    have hnames : ∀ label line, ((monitoredReads fields value).map fun name =>
        (⟨label, line, name⟩ : Read)).map (·.field) = monitoredReads fields value := by
      simp [Function.comp_def]
    rw [hnames]
    exact pairwise_ascending _
  | _ => exact .nil

theorem mem_namesOf {i : Instr} {name : String} :
    name ∈ namesOf fields i ↔ ∃ place value f, i.op = .assign place value ∧ value.Reads f ∧
      fields.monitors f = true ∧ f.qualifiedName = name := by
  unfold namesOf readsOf
  cases hop : i.op with
  | assign place value => simp [Function.comp_def, mem_monitoredReads]
  | _ => simp

/-- The probe for a field that an instruction reads. -/
def readOp (file : String) (i : Instr) (name : String) : Operation :=
  .probe (.fieldRead file (i.sourceLine?.getD 0) name)

/-- What that probe asks of the recorder. -/
def readEvent (file : String) (i : Instr) (name : String) : RecorderRequest :=
  .event (.fieldAccessed file (i.sourceLine?.getD 0) name)

theorem map_probesBefore_eq (hskip : productSkip? settings target = none) (i : Instr) :
    (probesBefore settings fields target i).map .probe =
      (namesOf fields i).map (readOp target.file i) := by
  simp only [probesBefore, hskip, namesOf, List.map_map]
  refine List.map_congr_left fun r hr => ?_
  unfold readsOf at hr
  split at hr
  · obtain ⟨name, -, rfl⟩ := List.mem_map.1 hr
    rfl
  · cases hr

/-- The probes for the reads of instructions, with nothing else between the instructions. -/
theorem groups_weave (hskip : productSkip? settings target = none)
    (h : weave settings fields target b = .ok o b') (hnodup : b'.labels.Nodup) :
    groups b.labels b'.instrs =
      (b.instrs.map fun i => ((namesOf fields i).map (readOp target.file i), i.label), []) := by
  obtain ⟨-, y, hy, hopening, hclosing, hslots⟩ := weave_probesBefore h hnodup
  rw [hy.groups_eq (hslots.imp fun i s hs => .of_eq hs.1) hnodup hopening hclosing]
  have hgroups : List.Forall₂ (· = ·)
      (b.instrs.map fun i => ((namesOf fields i).map (readOp target.file i), i.label))
      (y.slots.map fun s => (s.ops, s.instr.label)) := by
    rw [List.forall₂_map_left_iff, List.forall₂_map_right_iff]
    refine hslots.imp fun i s hs => ?_
    rw [hs.2, map_probesBefore_eq hskip, hs.1]
  rw [List.forall₂_eq_eq_eq] at hgroups
  rw [hgroups]

/-- In a run of the woven body, the probes for the reads of an instruction are executed right before
it. -/
theorem map_op_group (hskip : productSkip? settings target = none)
    (h : weave settings fields target b = .ok o b') (hb : b.defect? = none)
    (hnodup : b'.labels.Nodup) {i : Instr} (hi : i ∈ b.instrs) {before after : List Step}
    {step : Step} {fails : Bool} (hmem : ∀ e ∈ before, e.1 ∈ b'.instrs)
    (hlabel : step.1.label = i.label)
    (hwalk : b'.Walks 0 ((before ++ step :: after).map (·.1.label)) fails) :
    (before.rtakeWhile fun e => e.1.label ∉ b.labels).map (·.1.op) =
      (namesOf fields i).map (readOp target.file i) := by
  obtain ⟨-, y, hy, hopening, hclosing, hslots⟩ := weave_probesBefore h hnodup
  obtain ⟨k, hk⟩ := List.getElem?_of_mem hi
  obtain ⟨s, hs, rfl, hops⟩ := exists_getElem?_of_forall₂ hslots hk
  have hstraight : ∀ s ∈ y.slots, ∀ op ∈ s.ops, op.IsStraight := by
    intro s hs op hop
    obtain ⟨i, -, -, hops⟩ := exists_of_mem_forall₂ hslots hs
    obtain ⟨p, -, rfl⟩ := List.mem_map.1 (hops ▸ hop)
    trivial
  rw [List.map_append, List.map_cons, hlabel] at hwalk
  have hlabels := hy.rtakeWhile_eq (hslots.imp fun i s hs => .of_eq hs.1) hnodup hopening hclosing
    hb hstraight hs hwalk
  have hgroup : (before.map (·.1.label)).rtakeWhile (· ∉ b.labels) =
      (before.rtakeWhile fun e => e.1.label ∉ b.labels).map (·.1.label) := by
    simp [List.rtakeWhile, ← List.map_reverse, List.takeWhile_map, Function.comp_def]
  -- Labels tell operations, both of what was executed and of what was woven in.
  have hexecuted := Body.opsOf_map_label hnodup
    (l := (before.rtakeWhile fun e => e.1.label ∉ b.labels).map (·.1)) fun i hi => by
      obtain ⟨e, he, rfl⟩ := List.mem_map.1 hi
      exact hmem e ((List.rtakeWhile_suffix _ before).subset he)
  have hwoven := Body.opsOf_map_label hnodup (l := s.woven.map wovenInstr) fun i hi => by
    rw [hy.instrs_eq, Layout.instrs, hopening, hclosing]
    simp only [List.map_nil, List.nil_append, List.append_nil, List.mem_flatMap, Slot.emit]
    exact ⟨s, List.mem_of_getElem? hs, List.mem_append_left _ hi⟩
  rw [List.map_map, List.map_map] at hexecuted hwoven
  rw [← map_probesBefore_eq hskip, ← hops, Slot.ops]
  refine hexecuted.symm.trans (Eq.trans ?_ hwoven)
  exact congrArg b'.opsOf (hgroup.symm.trans hlabels)

/-- Field probes match the reads.  The field weaver, if it does not skip a method, puts a probe for
each monitored field that is read in the right-hand side of an assignment right before the
assignment, with its line or zero, in ascending order of the names and each name once, and it adds
nothing else.  Whatever the calls in the woven body do, in every run from its entry each execution
of an instruction is directly preceded by its probes, and from before the first of them up to the
instruction exactly their events are recorded. -/
theorem probes_match_reads (hskip : productSkip? settings target = none)
    (h : weave settings fields target b = .ok o b') (hb : b.defect? = none)
    (hb' : b'.defect? = none) :
    ∃ names : Instr → List String,
      (∀ i, (names i).Pairwise (· < ·) ∧ ∀ name, name ∈ names i ↔
        ∃ place value f, i.op = .assign place value ∧ value.Reads f ∧
          fields.monitors f = true ∧ f.qualifiedName = name) ∧
      groups b.labels b'.instrs =
        (b.instrs.map fun i => ((names i).map (readOp target.file i), i.label), []) ∧
      ∀ (limit : Nat) (call : Call) (rounds : Nat) (frame : Frame) (state : MachineState),
        let steps := b'.steps limit call rounds frame 0 state
        steps.map (·.1.label) = (b'.watch limit call rounds frame 0 state).labels ∧
        ∀ i ∈ b.instrs, ∀ before step after, steps = before ++ step :: after →
          step.1.label = i.label →
          let group := before.rtakeWhile fun e => e.1.label ∉ b.labels
          group.map (·.1.op) = (names i).map (readOp target.file i) ∧
            ∃ first, (group ++ [step]).head? = some first ∧
              step.2 = ((names i).map (readEvent target.file i)).reverse ++ first.2 := by
  have hnodup := Body.labels_nodup_of_defect? hb'
  refine ⟨namesOf fields, fun i => ⟨pairwise_namesOf i, fun name => mem_namesOf⟩,
    groups_weave hskip h hnodup, fun limit call rounds frame state => ?_⟩
  intro steps
  have hlabels := b'.map_label_steps limit call rounds frame 0 state
  refine ⟨hlabels, fun i hi before step after hsplit hlabel => ?_⟩
  intro group
  have hsteps : b'.steps limit call rounds frame 0 state = before ++ step :: after := hsplit
  have hwalk := b'.walks_watch limit call rounds frame 0 state
  rw [← hlabels, hsteps] at hwalk
  have hmem : ∀ e ∈ before, e.1 ∈ b'.instrs := fun e he => by
    refine b'.mem_instrs_of_mem_steps limit call rounds frame 0 state ?_
    rw [hsteps]
    exact List.mem_append_left _ he
  have hops := map_op_group hskip h hb hnodup hi hmem hlabel hwalk
  refine ⟨hops, trace_eq_of_isChain ?_ ?_⟩
  · have hrow : List.Forall₂ (· = ·) (group.map (·.1.op))
        ((namesOf fields i).map (readOp target.file i)) := by
      rw [List.forall₂_eq_eq_eq]
      exact hops
    rw [List.forall₂_map_left_iff, List.forall₂_map_right_iff] at hrow
    rw [List.forall₂_map_right_iff]
    exact hrow.imp fun e name he => ⟨_, he, fun frame => rfl⟩
  · have hchain := b'.isChain_steps limit call rounds frame 0 state
    rw [hsteps] at hchain
    obtain ⟨front, hfront⟩ := List.rtakeWhile_suffix
      (fun e : Step => decide (e.1.label ∉ b.labels)) before
    refine hchain.infix ⟨front, after, ?_⟩
    rw [← List.append_assoc, hfront]
    simp

/-- A body that jumps to an assignment whose right-hand side reads two fields, one of them twice. -/
def summing : Body :=
  { locals := [⟨"x", .int⟩]
    instrs := [⟨⟨0⟩, 4, .goto ⟨2⟩⟩, ⟨⟨1⟩, 6, .ret none⟩,
      ⟨⟨2⟩, 5, .assign (.var ⟨"x", .int⟩) (.binary .add (.field ⟨"Foo", "b", .int⟩)
        (.binary .mul (.unary .neg (.field ⟨"Foo", "a", .int⟩)) (.field ⟨"Foo", "b", .int⟩)))⟩,
      ⟨⟨3⟩, 5, .goto ⟨1⟩⟩] }

/-- The body with its probes. -/
def summingProbed : Body :=
  { locals := [⟨"x", .int⟩]
    instrs := [⟨⟨0⟩, 4, .goto ⟨4⟩⟩, ⟨⟨1⟩, 6, .ret none⟩,
      ⟨⟨4⟩, 0, .probe (.fieldRead "Foo.java" 5 "Foo.a")⟩,
      ⟨⟨5⟩, 0, .probe (.fieldRead "Foo.java" 5 "Foo.b")⟩,
      ⟨⟨2⟩, 5, .assign (.var ⟨"x", .int⟩) (.binary .add (.field ⟨"Foo", "b", .int⟩)
        (.binary .mul (.unary .neg (.field ⟨"Foo", "a", .int⟩)) (.field ⟨"Foo", "b", .int⟩)))⟩,
      ⟨⟨3⟩, 5, .goto ⟨1⟩⟩] }

/-- If both fields are monitored, each gets one probe, and both are executed before every execution
of the assignment. -/
theorem probes_match_reads_summing :
    groups summing.labels summingProbed.instrs =
      ([([], ⟨0⟩), ([], ⟨1⟩), ([.probe (.fieldRead "Foo.java" 5 "Foo.a"),
        .probe (.fieldRead "Foo.java" 5 "Foo.b")], ⟨2⟩), ([], ⟨3⟩)], []) ∧
    ∀ limit call rounds frame state before step after,
      summingProbed.steps limit call rounds frame 0 state = before ++ step :: after →
      step.1.label = ⟨2⟩ →
      (before.rtakeWhile fun e => e.1.label ∉ summing.labels).map (·.1.op) =
        [.probe (.fieldRead "Foo.java" 5 "Foo.a"), .probe (.fieldRead "Foo.java" 5 "Foo.b")] := by
  have hweave : weave {} ⟨[("Foo", "a"), ("Foo", "b")]⟩ ⟨"Foo", "Foo.java", "f", "Foo.f"⟩ summing =
      .ok (.woven 2) summingProbed := rfl
  obtain ⟨names, -, hgroups, hruns⟩ :=
    probes_match_reads (by decide) hweave (by decide) (by decide)
  refine ⟨rfl, fun limit call rounds frame state before step after hsteps hlabel => ?_⟩
  obtain ⟨hops, -⟩ := (hruns limit call rounds frame state).2 ⟨⟨2⟩, 5, _⟩
    (List.mem_cons_of_mem _ (List.mem_cons_of_mem _ List.mem_cons_self)) before step after hsteps
    hlabel
  rw [hops]
  have hgroup := congrArg (fun g => g.1[2]?.map (·.1)) hgroups
  exact (Option.some.inj hgroup).symm

end FieldAccess

end TraceWeave
