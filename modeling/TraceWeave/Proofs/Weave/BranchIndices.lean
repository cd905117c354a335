import TraceWeave.Proofs.Weave.RequestedLines
import Mathlib.Data.List.DropRight
import Mathlib.Order.Bounds.Defs

/-!
# The numbers of branches

The product weaver puts a branch probe right before each branch on a line that it has to do with.
The probe reports the line and a number.  Of the lines of those branches, in program order, the
number says how long the longest block of equal lines is that ends with this one (`blockLength`), so
branches on other lines do not count and do not start the count anew
(`Product.branchNumbers_weave`).  In particular two probes report the same only if a branch on a
different one of these lines stands between their branches.
-/

namespace TraceWeave

/-! ## Blocks of equal members -/

section

variable {α : Type} [DecidableEq α]

/-- The length of the longest block of equal members that a list ends with. -/
def blockLength (l : List α) : Nat := (l.rtakeWhile fun a => l.getLast? = some a).length

theorem blockLength_le (l : List α) : blockLength l ≤ l.length :=
  (List.rtakeWhile_suffix _ l).length_le

/-- One more member makes the block longer if it is like the one before, and else starts a block. -/
theorem blockLength_concat (l : List α) (a : α) :
    blockLength (l ++ [a]) = if l.getLast? = some a then blockLength l + 1 else 1 := by
  have hlast : (l ++ [a]).getLast? = some a := List.getLast?_concat
  rw [blockLength, hlast, List.rtakeWhile_concat_pos _ _ _ (by simp), List.length_append,
    List.length_singleton]
  split
  · next h => rw [blockLength, h]
  · next h =>
    rw [List.length_eq_zero_iff.2, Nat.zero_add]
    rcases List.eq_nil_or_concat l with rfl | ⟨front, c, rfl⟩
    · rfl
    · rw [List.concat_eq_append] at h ⊢
      refine List.rtakeWhile_concat_neg _ _ _ fun hc => h ?_
      rw [List.getLast?_concat]
      exact (of_decide_eq_true hc).symm

theorem blockLength_take_succ {l : List α} {k : Nat} {a : α} (h : l[k]? = some a) :
    blockLength (l.take (k + 1)) =
      if (l.take k).getLast? = some a then blockLength (l.take k) + 1 else 1 := by
  rw [List.take_add_one, h, Option.toList_some, blockLength_concat]

/-- A list ends with a number of copies of its last member exactly if its last block is that
long. -/
theorem replicate_suffix_iff {l : List α} {a : α} (h : l.getLast? = some a) (n : Nat) :
    List.replicate n a <:+ l ↔ n ≤ blockLength l := by
  induction l using List.reverseRecOn generalizing n with
  | nil => cases h
  | append_singleton l c ih =>
    rw [List.getLast?_concat] at h
    cases h
    rw [blockLength_concat]
    cases n with
    | zero => simp
    | succ n =>
      have hconcat : List.replicate (n + 1) a <:+ l ++ [a] ↔ List.replicate n a <:+ l := by
        rw [List.replicate_succ', ← List.reverse_prefix, List.reverse_concat', List.reverse_concat',
          List.cons_prefix_cons, List.reverse_prefix, and_iff_right rfl]
      rw [hconcat]
      split
      · next hlast => rw [ih hlast, Nat.add_le_add_iff_right]
      · next hlast =>
        cases n with
        | zero => simp
        | succ n =>
          refine iff_of_false (fun hsuffix => hlast ?_) (by omega)
          obtain ⟨front, rfl⟩ := hsuffix
          rw [List.replicate_succ', ← List.append_assoc, List.getLast?_concat]

/-- The last block is the longest number of equal members that the list ends with. -/
theorem isGreatest_blockLength {l : List α} {a : α} (h : l.getLast? = some a) :
    IsGreatest {n | List.replicate n a <:+ l} (blockLength l) :=
  ⟨(replicate_suffix_iff h _).2 (Nat.le_refl _), fun n hn => (replicate_suffix_iff h n).1 hn⟩

/-- Where equal members end blocks of the same length, a different member stands in between. -/
theorem exists_ne_between {l : List α} {a : α} {j k : Nat} (hlt : j < k) (hj : l[j]? = some a)
    (hk : l[k]? = some a) (h : blockLength (l.take (j + 1)) = blockLength (l.take (k + 1))) :
    ∃ m c, j < m ∧ m < k ∧ l[m]? = some c ∧ c ≠ a := by
  by_contra hnone
  simp only [not_exists, not_and, not_not] at hnone
  have hlength := (List.getElem?_eq_some_iff.1 hk).1
  have hall : ∀ m, j ≤ m → m ≤ k → l[m]? = some a := by
    intro m hjm hmk
    rcases Nat.eq_or_lt_of_le hjm with rfl | hjm
    · exact hj
    rcases Nat.eq_or_lt_of_le hmk with rfl | hmk
    · exact hk
    · have hm := List.getElem?_eq_getElem (l := l) (i := m) (by omega)
      rw [hm, hnone m _ hjm hmk hm]
  -- From the first one on, every further member makes the block longer.
  have hgrows : ∀ n, j + n ≤ k →
      blockLength (l.take (j + n + 1)) = blockLength (l.take (j + 1)) + n := by
    intro n hn
    induction n with
    | zero => rfl
    | succ n ih =>
      have hlast : (l.take (j + n + 1)).getLast? = some a := by
        rw [List.take_add_one, hall (j + n) (by omega) (by omega), Option.toList_some,
          List.getLast?_concat]
      have hnext := blockLength_take_succ (hall (j + n + 1) (by omega) (by omega))
      rw [if_pos hlast, ih (by omega)] at hnext
      exact hnext
  have := hgrows (k - j) (by omega)
  rw [Nat.add_sub_cancel' (Nat.le_of_lt hlt), ← h] at this
  omega

end

/-- There are no more distinct labels than numbers for them. -/
theorem Label.length_le_of_nodup {l : List Label} (h : l.Nodup) : l.length ≤ UInt32.size := by
  have hnumbers : (l.map (·.number.toNat)).Nodup := by
    refine h.map fun m n heq => ?_
    cases m
    cases n
    exact congrArg Label.mk (UInt32.toNat_inj.1 heq)
  have hsubset : l.map (·.number.toNat) ⊆ List.range UInt32.size := fun n hn => by
    obtain ⟨label, -, rfl⟩ := List.mem_map.1 hn
    exact List.mem_range.2 label.number.toNat_lt
  simpa using (List.subperm_of_subset hnumbers hsubset).length_le

/-! ## New branch probes -/

/-- The branch that a branch probe reports. -/
def Operation.reachedSite? : Operation → Option BranchSite
  | .probe (.branchReached file line index) => some ⟨file, line, index⟩
  | _ => none

/-- The branch that a new branch probe reports: no instruction had its label before. -/
def Instr.newSite? (old : List Label) (i : Instr) : Option BranchSite :=
  if i.label ∈ old then none else i.op.reachedSite?

/-- What the new branch probes among some instructions report, in program order, each with the label
of the instruction right after the probe. -/
def newSites (old : List Label) : List Instr → List (BranchSite × Option Label)
  | [] => []
  | i :: rest =>
    match i.newSite? old with
    | some site => (site, rest.head?.map (·.label)) :: newSites old rest
    | none => newSites old rest

/-- What the new branch probes of a woven body report. -/
def Body.newSites (original woven : Body) : List (BranchSite × Option Label) :=
  TraceWeave.newSites original.labels woven.instrs

section

variable {old : List Label} {i : Instr} {l : List Instr}

theorem newSites_cons_of_none (h : i.newSite? old = none) (rest : List Instr) :
    newSites old (i :: rest) = newSites old rest := by
  rw [newSites, h]

theorem newSites_append_of_none (h : ∀ i ∈ l, i.newSite? old = none) (rest : List Instr) :
    newSites old (l ++ rest) = newSites old rest := by
  induction l with
  | nil => rfl
  | cons i l ih =>
    rw [List.cons_append, newSites_cons_of_none (h i (by simp)), ih fun j hj => h j (by simp [hj])]

/-- After an instruction that is no new branch probe, the list can be divided. -/
theorem newSites_concat_append (h : i.newSite? old = none) (l rest : List Instr) :
    newSites old (l ++ [i] ++ rest) = newSites old (l ++ [i]) ++ newSites old rest := by
  induction l with
  | nil => simp only [List.nil_append, List.singleton_append, newSites_cons_of_none h, newSites]
  | cons j l ih =>
    have hhead : (l ++ [i] ++ rest).head? = (l ++ [i]).head? := by cases l <;> rfl
    rw [List.cons_append, List.cons_append, newSites, newSites, ih, hhead]
    cases j.newSite? old <;> rfl

end

theorem exists_of_newSites_ne_nil {old : List Label} {l : List Instr} (h : newSites old l ≠ []) :
    ∃ i ∈ l, i.label ∉ old := by
  by_contra hnone
  refine h ?_
  have hall : ∀ i ∈ l, i.newSite? old = none := fun i hi =>
    if_pos (not_not.1 fun hnew => hnone ⟨i, hi, hnew⟩)
  simpa [newSites] using newSites_append_of_none hall []

/-- What the slots of a layout report is put together from what each of them reports. -/
theorem newSites_flatMap_emit {old : List Label} {R : Instr → Slot → Prop} {instrs : List Instr}
    {slots : List Slot} (hslots : List.Forall₂ R instrs slots) (destination : Label → Label)
    (g : Instr → List (BranchSite × Option Label))
    (hold : ∀ s ∈ slots, s.instr.label ∈ old)
    (hg : ∀ i s, s ∈ slots → i ∈ instrs → R i s → newSites old (s.emit destination) = g i) :
    newSites old (slots.flatMap (Slot.emit destination)) = instrs.flatMap g := by
  induction hslots with
  | nil => rfl
  | @cons i s instrs slots hs _ ih =>
    have hlast : (s.instr.retarget destination).newSite? old = none := if_pos (hold s (by simp))
    rw [List.flatMap_cons, List.flatMap_cons, Slot.emit, newSites_concat_append hlast, ← Slot.emit,
      hg i s (by simp) (by simp) hs, ih (fun s hs => hold s (by simp [hs]))
        fun i s hs hi => hg i s (by simp [hs]) (by simp [hi])]

/-- Distinct keys in the order of a list bring the entries back in order. -/
theorem flatMap_filter_of_sublist {α β : Type} [DecidableEq α] {f : β → α} {es : List β}
    {l : List α} (hnodup : l.Nodup) (h : (es.map f).Sublist l) :
    (l.flatMap fun a => es.filter fun e => f e = a) = es := by
  induction l generalizing es with
  | nil => rw [List.map_eq_nil_iff.1 (List.sublist_nil.1 h), List.flatMap_nil]
  | cons a l ih =>
    rw [List.nodup_cons] at hnodup
    rw [List.flatMap_cons]
    -- No entry but the first one can have the first key.
    have hnone : ∀ es : List β, (es.map f).Sublist l → (es.filter fun e => f e = a) = [] :=
      fun es hes => List.filter_eq_nil_iff.2 fun e he heq =>
        hnodup.1 (of_decide_eq_true heq ▸ hes.subset (List.mem_map_of_mem he))
    cases es with
    | nil => simp
    | cons e es =>
      cases h with
      | cons _ h => rw [hnone _ h, List.nil_append, ih hnodup.2 h]
      | cons_cons _ h =>
        have hrest : (l.flatMap fun a => (e :: es).filter fun e' => f e' = a) =
            l.flatMap fun a => es.filter fun e' => f e' = a := by
          refine List.flatMap_congr fun c hc => List.filter_cons_of_neg ?_
          rw [decide_eq_true_eq]
          rintro rfl
          exact hnodup.1 hc
        rw [List.filter_cons_of_pos (by simp), hnone _ h, hrest, ih hnodup.2 h,
          List.singleton_append]

/-- Where keys are distinct, one entry has the key of an entry. -/
theorem filter_eq_singleton {α β : Type} [DecidableEq α] {f : β → α} {es : List β}
    (hnodup : (es.map f).Nodup) {e : β} (he : e ∈ es) : (es.filter fun e' => f e' = f e) = [e] := by
  obtain ⟨before, after, rfl⟩ := List.append_of_mem he
  rw [List.map_append, List.map_cons, List.nodup_append, List.nodup_cons] at hnodup
  obtain ⟨-, ⟨hafter, -⟩, hbefore⟩ := hnodup
  rw [List.filter_append, List.filter_cons_of_pos (by simp), List.filter_eq_nil_iff.2,
    List.filter_eq_nil_iff.2, List.nil_append]
  · exact fun e' he' heq => hafter (of_decide_eq_true heq ▸ List.mem_map_of_mem he')
  · exact fun e' he' heq =>
      hbefore _ (List.mem_map_of_mem he') _ List.mem_cons_self (of_decide_eq_true heq)

namespace Product

theorem reachedSite?_of_isPart {site : BranchSite} {op : Operation} (h : op.IsPart site) :
    op.reachedSite? = none := by
  rcases h with ⟨x, value, rfl⟩ | ⟨x, source, rfl⟩ | ⟨x, binary, y, rfl⟩ <;> rfl

theorem reachedSite?_of_mem_lineProbes {file : String} {added : List (UInt32 × Label)}
    {label : Label} {op : Operation} (h : op ∈ lineProbes file added label) :
    op.reachedSite? = none := by
  obtain ⟨e, -, rfl⟩ := List.mem_map.1 h
  rfl

/-- What was woven in and reports no branch is no new branch probe. -/
theorem newSite?_eq_none_of_mem_map {old : List Label} {l : List (Label × Operation)}
    (h : ∀ e ∈ l, e.2.reachedSite? = none) : ∀ j ∈ l.map wovenInstr, j.newSite? old = none := by
  intro j hj
  obtain ⟨e, he, rfl⟩ := List.mem_map.1 hj
  rw [Instr.newSite?, wovenInstr_op, h e he, ite_self]

/-- A slot reports the branch that it decomposes, right before that. -/
theorem newSites_emit {target : MethodTarget} {added : List (UInt32 × Label)}
    {branches : List (Label × UInt32 × UInt32)} {declared available : List Local} {i : Instr}
    {ops : List Operation} {s : Slot} {old : List Label} (destination : Label → Label)
    (hdistinct : (branches.map (·.1)).Nodup) (hold : s.instr.label ∈ old)
    (hnew : ∀ e ∈ s.woven, e.1 ∉ old)
    (hops : s.ops = lineProbes target.file added i.label ++ ops)
    (hbranches : Branches target branches declared available i ops s.instr) :
    newSites old (s.emit destination) =
      (branches.filter fun e => e.1 = i.label).map
        fun e => (⟨target.file, e.2.1, e.2.2⟩, some e.1) := by
  have hlast : (s.instr.retarget destination).newSite? old = none := if_pos hold
  rcases hbranches with ⟨hnot, rfl, -⟩ | ⟨line, index, hmem, hdecomposed⟩
  · have hfilter : (branches.filter fun e => e.1 = i.label) = [] :=
      List.filter_eq_nil_iff.2 fun e he heq =>
        hnot (of_decide_eq_true heq ▸ List.mem_map_of_mem he)
    rw [List.append_nil] at hops
    have hwoven : ∀ e ∈ s.woven, e.2.reachedSite? = none := by
      intro e he
      have hmem : e.2 ∈ s.ops := List.mem_map_of_mem he
      exact reachedSite?_of_mem_lineProbes (hops ▸ hmem)
    rw [hfilter, Slot.emit, newSites_append_of_none (newSite?_eq_none_of_mem_map hwoven),
      newSites_cons_of_none hlast]
    rfl
  · obtain ⟨condition, t, before, script, -, -, hscript, -, rfl, hinstr⟩ := hdecomposed
    have hfilter : (branches.filter fun e => e.1 = i.label) = [(i.label, line, index)] :=
      filter_eq_singleton hdistinct hmem
    -- The last woven operation of the slot reports the branch.
    rw [← List.append_assoc] at hops
    obtain ⟨front, last, hwoven, hfront, hreached⟩ := List.map_eq_append_iff.1 hops
    obtain ⟨e, rfl, he⟩ := List.map_eq_singleton_iff.1 hreached
    have hsite : (wovenInstr e).newSite? old = some ⟨target.file, line, index⟩ := by
      rw [Instr.newSite?, wovenInstr_op, he]
      exact if_neg (hnew e (by simp [hwoven]))
    have hfrontNone : ∀ e ∈ front, e.2.reachedSite? = none := by
      intro e he
      have hmem : e.2 ∈ lineProbes target.file added i.label ++ script.ops :=
        hfront ▸ List.mem_map_of_mem he
      rcases List.mem_append.1 hmem with hmem | hmem
      · exact reachedSite?_of_mem_lineProbes hmem
      · exact reachedSite?_of_isPart (isPart_of_mem_script hscript _ hmem)
    rw [hfilter, Slot.emit, hwoven, List.map_append, List.append_assoc,
      newSites_append_of_none (newSite?_eq_none_of_mem_map hfrontNone), List.map_singleton,
      List.singleton_append, newSites, hsite, newSites_cons_of_none hlast, hinstr]
    rfl

/-! ## Numbers -/

/-- After branches on some lines, the numbers go on to count the last block. -/
theorem numbered_eq (before : List UInt32) (l : List (Label × UInt32)) :
    numbered (before.getLast?.map fun n => (n, .ofNat (blockLength before))) l =
      l.mapIdx fun k e =>
        (e.1, e.2, .ofNat (blockLength (before ++ (l.take (k + 1)).map (·.2)))) := by
  induction l generalizing before with
  | nil => rfl
  | cons e rest ih =>
    obtain ⟨label, line⟩ := e
    have hfirst : numbered (before.getLast?.map fun n => (n, .ofNat (blockLength before)))
        ((label, line) :: rest) = (label, line, .ofNat (blockLength (before ++ [line]))) ::
          numbered (some (line, .ofNat (blockLength (before ++ [line])))) rest := by
      rw [blockLength_concat]
      cases before.getLast? with
      | none => rfl
      | some n => by_cases hn : n = line <;> simp [numbered, hn, UInt32.ofNat_add]
    have hnext : some (line, UInt32.ofNat (blockLength (before ++ [line]))) =
        (before ++ [line]).getLast?.map fun n => (n, .ofNat (blockLength (before ++ [line]))) := by
      rw [List.getLast?_concat, Option.map_some]
    rw [hfirst, hnext, ih, List.mapIdx_cons]
    simp

/-- The number of a branch is the length of the block of equal lines that ends with it. -/
theorem selectedBranches_eq (lines : List UInt32) (b : Body) :
    selectedBranches lines b = (branchesOn lines b).mapIdx fun k e =>
      (e.1, e.2, .ofNat (blockLength (((branchesOn lines b).take (k + 1)).map (·.2)))) := by
  simpa [selectedBranches] using numbered_eq [] (branchesOn lines b)

/-- Labels that are distinct in the body that is left were distinct before. -/
theorem labels_nodup_of_weave {settings : Settings} {selection : LineSelection}
    {target : MethodTarget} {w w' : Workpiece} {o : Outcome}
    (h : weave settings selection target w = .ok o w') (hnodup : w'.body.labels.Nodup) :
    w.body.labels.Nodup := by
  obtain ⟨-, added, -, y, hy, -, -, hslots⟩ := weave_layout h hnodup
  rw [← Layout.origins_eq_labels (hslots.imp fun i s ⟨_, _, hbranches⟩ => hbranches.carried)]
  exact Layout.origins_nodup (hy.labels_nodup hnodup)

/-- A branch probe for each branch on the lines, right before it. -/
theorem newSites_eq_map {settings : Settings} {selection : LineSelection} {target : MethodTarget}
    {w w' : Workpiece} {o : Outcome} (h : weave settings selection target w = .ok o w')
    (hnodup : w'.body.labels.Nodup) :
    w.body.newSites w'.body =
      (selectedBranches (linesIn settings selection target w.body) w.body).map
        fun e => (⟨target.file, e.2.1, e.2.2⟩, some e.1) := by
  obtain ⟨-, added, -, y, hy, hopening, hclosing, hslots⟩ := weave_layout h hnodup
  set branches := selectedBranches (linesIn settings selection target w.body) w.body
  have horigins : y.origins = w.body.labels :=
    Layout.origins_eq_labels (hslots.imp fun i s ⟨_, _, hbranches⟩ => hbranches.carried)
  have hlabels := hy.labels_nodup hnodup
  have hsublist : (branches.map (·.1)).Sublist w.body.labels := selectedBranches_labels_sublist _ _
  have hold := labels_nodup_of_weave h hnodup
  have hinstrs : w'.body.instrs = y.slots.flatMap (Slot.emit y.destination) := by
    rw [hy.instrs_eq, Layout.instrs, hopening, hclosing]
    simp
  have hmem : ∀ s ∈ y.slots, s.instr.label ∈ w.body.labels := fun s hs =>
    horigins ▸ Layout.mem_origins_of_mem hs
  rw [Body.newSites, hinstrs, newSites_flatMap_emit hslots y.destination
    (fun i => (branches.filter fun e => e.1 = i.label).map
      fun e => (⟨target.file, e.2.1, e.2.2⟩, some e.1)) hmem]
  · have hback := flatMap_filter_of_sublist hold hsublist
    rw [Body.labels, List.flatMap_map] at hback
    rw [← List.map_flatMap, hback]
  · rintro i s hs - ⟨ops, hops, hbranches⟩
    refine newSites_emit _ (hold.sublist hsublist) (hmem s hs) (fun e he hmem => ?_) hops hbranches
    exact Layout.woven_ne_origin hlabels (Layout.mem_woven_of_mem_slot hs he)
      (horigins.symm ▸ hmem) rfl

/-- There are fewer branches on the lines than labels, since each gets a probe with a label of its
own. -/
theorem length_branchesOn_lt {settings : Settings} {selection : LineSelection}
    {target : MethodTarget} {w w' : Workpiece} {o : Outcome}
    (h : weave settings selection target w = .ok o w') (hnodup : w'.body.labels.Nodup) :
    (branchesOn (linesIn settings selection target w.body) w.body).length < UInt32.size := by
  have hsites := newSites_eq_map h hnodup
  set branches := branchesOn (linesIn settings selection target w.body) w.body
  by_cases hnil : branches = []
  · rw [hnil]
    decide
  have hne : w.body.newSites w'.body ≠ [] := by
    rw [hsites, Ne, List.map_eq_nil_iff, ← List.map_eq_nil_iff (f := (·.1)), selectedBranches,
      map_label_numbered, List.map_eq_nil_iff]
    exact hnil
  obtain ⟨i, -, hnew⟩ := exists_of_newSites_ne_nil hne
  have hsublist : (branches.map (·.1)).Sublist w.body.labels := branchesOn_labels_sublist _ _
  have hdistinct : (i.label :: branches.map (·.1)).Nodup :=
    List.nodup_cons.2 ⟨fun hmem => hnew (hsublist.subset hmem),
      (labels_nodup_of_weave h hnodup).sublist hsublist⟩
  have hlength := Label.length_le_of_nodup hdistinct
  rw [List.length_cons, List.length_map] at hlength
  exact hlength

/-- The numbers of branches.  A product weaver that goes through and leaves a consistent body has
put one new branch probe right before each branch on the lines that it has to do with, and none
elsewhere.  The probe of a branch reports the line of the branch and, as its number, the length of
the longest block of equal lines that ends with this line among the lines of these branches.  Of two
probes that report the same, the branches have a branch on another of the lines between them. -/
theorem branchNumbers_weave {settings : Settings} {selection : LineSelection}
    {target : MethodTarget} {w w' : Workpiece} {o : Outcome}
    (h : weave settings selection target w = .ok o w') (hconsistent : w'.body.defect? = none) :
    let branches := branchesOn (linesIn settings selection target w.body) w.body
    let lines := branches.map (·.2)
    let sites := w.body.newSites w'.body
    (sites.map fun e => (e.1.file, e.1.line, e.1.index.toNat, e.2)) =
        branches.mapIdx (fun k e =>
          (target.file, e.2, blockLength (lines.take (k + 1)), some e.1)) ∧
      ∀ (j k : Nat) (e e' : BranchSite × Option Label), j < k → sites[j]? = some e →
        sites[k]? = some e' → e.1.line = e'.1.line → e.1.index = e'.1.index →
        ∃ m line, j < m ∧ m < k ∧ lines[m]? = some line ∧ line ≠ e.1.line := by
  intro branches lines sites
  have hnodup := Body.labels_nodup_of_defect? hconsistent
  have hsites : (sites.map fun e => (e.1.file, e.1.line, e.1.index.toNat, e.2)) =
      branches.mapIdx fun k e =>
        (target.file, e.2, blockLength (lines.take (k + 1)), some e.1) := by
    have hlt := length_branchesOn_lt h hnodup
    refine List.ext_getElem? fun k => ?_
    rw [show sites = _ from newSites_eq_map h hnodup, selectedBranches_eq]
    simp only [List.getElem?_map, List.getElem?_mapIdx, Option.map_map]
    refine Option.map_congr fun e _ => ?_
    have hblock : blockLength (lines.take (k + 1)) < UInt32.size := by
      refine lt_of_le_of_lt (blockLength_le _) (lt_of_le_of_lt ?_ hlt)
      rw [List.length_take, List.length_map]
      exact Nat.min_le_right _ _
    simp only [Function.comp_apply, List.map_take]
    rw [UInt32.toNat_ofNat_of_lt' hblock]
  refine ⟨hsites, fun j k e e' hlt hj hk hline hindex => ?_⟩
  -- Both positions show lines, and blocks of the same length end there.
  have hat {n : Nat} {e : BranchSite × Option Label} (hn : sites[n]? = some e) :
      lines[n]? = some e.1.line ∧ blockLength (lines.take (n + 1)) = e.1.index.toNat := by
    have hboth := congrArg (·[n]?) hsites
    simp only [List.getElem?_map, List.getElem?_mapIdx, hn, Option.map_some] at hboth
    obtain ⟨branch, hbranch, heq⟩ := Option.map_eq_some_iff.1 hboth.symm
    obtain ⟨-, hline, hindex, -⟩ : _ ∧ _ ∧ _ ∧ _ := by simpa using heq
    exact ⟨by rw [List.getElem?_map, hbranch, Option.map_some, hline], hindex⟩
  have hk' := (hat hk).1
  rw [← hline] at hk'
  refine exists_ne_between hlt (hat hj).1 hk' ?_
  rw [(hat hj).2, (hat hk).2, hindex]

/-- A body with branches on lines 5, 7, 5, 9 and 5. -/
def alternating : Body :=
  { locals := [⟨"x", .boolean⟩]
    instrs := [⟨⟨0⟩, 5, .branch (.var ⟨"x", .boolean⟩) ⟨5⟩⟩,
      ⟨⟨1⟩, 7, .branch (.var ⟨"x", .boolean⟩) ⟨5⟩⟩, ⟨⟨2⟩, 5, .branch (.var ⟨"x", .boolean⟩) ⟨5⟩⟩,
      ⟨⟨3⟩, 9, .branch (.var ⟨"x", .boolean⟩) ⟨5⟩⟩, ⟨⟨4⟩, 5, .branch (.var ⟨"x", .boolean⟩) ⟨5⟩⟩,
      ⟨⟨5⟩, 10, .ret none⟩] }

/-- What the weaver leaves of it if lines 5 and 9 are requested. -/
def alternatingWoven : EStateM.Result WeaveError Workpiece Outcome :=
  weave {} ⟨[("Foo.java", ⟨[⟨5, 5⟩, ⟨9, 9⟩]⟩)]⟩ ⟨"Foo", "Foo.java", "f", "Foo.f"⟩
    ⟨alternating, ⟨[], []⟩⟩

/-- Line 7 does not interrupt the count of line 5, and line 9, which is requested, does. -/
theorem branchNumbers_weave_alternating :
    ∃ o w', alternatingWoven = .ok o w' ∧ w'.body.defect? = none ∧
      alternating.newSites w'.body = [(⟨"Foo.java", 5, 1⟩, some ⟨0⟩),
        (⟨"Foo.java", 5, 2⟩, some ⟨2⟩), (⟨"Foo.java", 9, 1⟩, some ⟨3⟩),
        (⟨"Foo.java", 5, 1⟩, some ⟨4⟩)] ∧
      ∃ m line, 0 < m ∧ m < 3 ∧ ([5, 5, 9, 5] : List UInt32)[m]? = some line ∧ line ≠ 5 := by
  have hrun : (match alternatingWoven with
      | .ok _ w' => decide (w'.body.defect? = none ∧
          alternating.newSites w'.body = [(⟨"Foo.java", 5, 1⟩, some ⟨0⟩),
            (⟨"Foo.java", 5, 2⟩, some ⟨2⟩), (⟨"Foo.java", 9, 1⟩, some ⟨3⟩),
            (⟨"Foo.java", 5, 1⟩, some ⟨4⟩)])
      | .error _ _ => false) = true := by decide +kernel
  cases hweave : alternatingWoven with
  | error e w' =>
    rw [hweave] at hrun
    cases hrun
  | ok o w' =>
    rw [hweave] at hrun
    obtain ⟨hconsistent, hsites⟩ := of_decide_eq_true hrun
    refine ⟨o, w', rfl, hconsistent, hsites, ?_⟩
    have hshared := (branchNumbers_weave hweave hconsistent).2 0 3
      (⟨"Foo.java", 5, 1⟩, some ⟨0⟩) (⟨"Foo.java", 5, 1⟩, some ⟨4⟩) (by decide)
    rw [hsites] at hshared
    exact hshared rfl rfl rfl rfl

end Product

end TraceWeave
