import TraceWeave.Proofs.Flow.Anchor
import TraceWeave.Proofs.Weave.Script
import TraceWeave.Proofs.Weave.Weavers

/-!
# What the product weaver leaves

The product weaver inserts line probes before the anchors of lines, and then takes the branches on
those lines one after another, decomposing the condition of each.  `Product.weave_layout` describes
the body that it leaves: every instruction has the line probes that it anchors before it, and a
branch on a requested line has its decomposition after those and reads what is left of its
condition.
-/

namespace TraceWeave

/-- The branch `i` was turned into `i'` and has the operations before it that decompose its
condition.  The script was computed when the variables `declared`, and maybe more, were declared,
and all its variables are among `available`. -/
def Instr.Decomposed (site : BranchSite) (declared available : List Local) (i : Instr)
    (ops : List Operation) (i' : Instr) : Prop :=
  ∃ condition target before s, i.op = .branch condition target ∧ declared <+: before ∧
    script site condition before = .ok s ∧ s.locals <+: available ∧
    ops = s.ops ++ [Script.reachedOp site] ∧
    i' = { i with op := .branch s.rest target }

namespace Instr.Decomposed

variable {site : BranchSite} {declared available : List Local} {i i' : Instr}
  {ops : List Operation}

theorem label_eq (h : Decomposed site declared available i ops i') : i'.label = i.label := by
  obtain ⟨_, _, _, _, _, _, _, _, _, rfl⟩ := h
  rfl

theorem mono {declared' available' : List Local}
    (h : Decomposed site declared available i ops i') (hdeclared : declared' <+: declared)
    (havailable : available <+: available') : Decomposed site declared' available' i ops i' := by
  obtain ⟨condition, target, before, s, hop, hbefore, hs, hlocals, hops, hi⟩ := h
  exact ⟨condition, target, before, s, hop, hdeclared.trans hbefore, hs,
    hlocals.trans havailable, hops, hi⟩

theorem carried {s : Slot} (h : Decomposed site declared available i ops s.instr) :
    i.Carried s := by
  obtain ⟨condition, t, before, script, hop, -, -, -, -, hinstr⟩ := h
  exact ⟨by rw [hinstr], by rw [hinstr], by rw [hinstr, hop]; rfl⟩

end Instr.Decomposed

/-! ## Conditions of branches -/

theorem Layout.exists_branch_of_condition? {b : Body} {y : Layout} {s : Slot} {condition : Expr}
    (hb : b.instrs = y.instrs) (hnodup : b.labels.Nodup) (hs : s ∈ y.slots)
    (h : b.condition? s.instr.label = some condition) :
    ∃ target, s.instr.op = .branch condition target := by
  rw [labels_eq_of_instrs hb] at hnodup
  obtain ⟨before, after, hsplit, -, -, hinit⟩ := exists_split hnodup hs
  have hget : b.get? s.instr.label = some (s.instr.retarget y.destination) := by
    have hinstrs : b.instrs = (y.opening.map wovenInstr ++
        before.flatMap (Slot.emit y.destination) ++ s.woven.map wovenInstr) ++
        s.instr.retarget y.destination ::
          (after.flatMap (Slot.emit y.destination) ++ y.closing.map wovenInstr) := by
      rw [hb, instrs, hsplit]
      simp [Slot.emit]
    rw [Body.get?, List.find?_eq_some_iff_append]
    refine ⟨by simp, _, _, hinstrs, fun i hi => ?_⟩
    have hne := hinit _ i hi
    simpa using hne
  rw [Body.condition?, hget] at h
  cases hop : s.instr.op with
  | branch c target =>
    have hc : c = condition := by simpa [Instr.retarget, Operation.retarget, hop] using h
    exact ⟨target, by rw [hc]⟩
  | _ => simp [Instr.retarget, Operation.retarget, hop] at h

theorem Layout.Lays.setCondition {y : Layout} {b : Body} (hy : y.Lays b) (hnodup : b.labels.Nodup)
    {label : Label} (hlabel : label ∈ y.origins) (condition : Expr) :
    (y.setCondition label condition).Lays (b.setCondition label condition) := by
  refine ⟨by rw [Layout.setCondition_eq condition hy.instrs_eq hnodup hlabel], fun e he => ?_⟩
  refine hy.straight e ?_
  simp only [Layout.woven, Layout.setCondition, List.mem_append, List.mem_flatMap,
    List.mem_map] at he ⊢
  rcases he with (he | ⟨r, ⟨s, hs, rfl⟩, he⟩) | he
  · exact .inl (.inl he)
  · refine .inl (.inr ⟨s, hs, ?_⟩)
    split at he <;> exact he
  · exact .inr he

/-- A new condition changes one instruction at most. -/
theorem Body.setCondition_forall₂ {R : Instr → Instr → Prop} (hrefl : ∀ i, R i i)
    {condition : Expr} (hcondition : ∀ i, R i (i.setCondition condition)) (b : Body)
    (label : Label) : List.Forall₂ R b.instrs (b.setCondition label condition).instrs := by
  have hsame (l : List Instr) : List.Forall₂ R l l := List.forall₂_same.2 fun i _ => hrefl i
  unfold Body.setCondition
  cases hafter : b.instrs.dropWhile (·.label ≠ label) with
  | nil => exact hsame _
  | cons i rest =>
    have hsplit := List.takeWhile_append_dropWhile (p := fun i : Instr => decide (i.label ≠ label))
      (l := b.instrs)
    rw [hafter] at hsplit
    conv_lhs => rw [← hsplit]
    exact List.rel_append (hsame _) (.cons (hcondition i) (hsame _))

theorem Body.setCondition_map {α : Type} {g : Instr → α} {condition : Expr}
    (hg : ∀ i, g (i.setCondition condition) = g i) (b : Body) (label : Label) :
    (b.setCondition label condition).instrs.map g = b.instrs.map g := by
  have hsame : List.Forall₂ (· = ·) (b.instrs.map g)
      ((b.setCondition label condition).instrs.map g) := by
    rw [List.forall₂_map_left_iff, List.forall₂_map_right_iff]
    exact b.setCondition_forall₂ (R := fun i j => g i = g j) (fun _ => rfl) (fun i => (hg i).symm)
      label
  rw [List.forall₂_eq_eq_eq] at hsame
  exact hsame.symm

theorem Body.setCondition_labels (b : Body) (label : Label) (condition : Expr) :
    (b.setCondition label condition).labels = b.labels :=
  b.setCondition_map (fun i => i.setCondition_label condition) label

theorem Body.setCondition_locals (b : Body) (label : Label) (condition : Expr) :
    (b.setCondition label condition).locals = b.locals := by
  unfold Body.setCondition
  split <;> rfl

theorem onBody_eq_ok {α : Type} {edit : EditM α} {w w' : Workpiece} {a : α}
    (h : onBody edit w = .ok a w') : edit w.body = .ok a w'.body ∧ w'.ledger = w.ledger := by
  unfold onBody at h
  split at h
  · next hedit =>
    cases h
    exact ⟨hedit, rfl⟩
  · cases h

namespace Product

/-! ## Line probes -/

/-- The line probes that were added: `added` are lines with their anchors, in their order and each
line once, none of them known to the first ledger and all of them known to the second, with nothing
else new. -/
structure Reserves (file : String) (anchored : List (UInt32 × Option Label))
    (added : List (UInt32 × Label)) (before after : LineLedger) : Prop where
  listed : (added.map fun e => (e.1, some e.2)).Sublist anchored
  distinct : (added.map fun e => LineLedger.key file e.1).Nodup
  fresh : ∀ e ∈ added, before.contains (LineLedger.key file e.1) = false
  committed : after.committed = before.committed
  pending : after.pending = before.pending ++ added.map fun e => LineLedger.key file e.1
  known : ∀ line anchor, (line, some anchor) ∈ anchored →
    after.contains (LineLedger.key file line) = true

theorem contains_append (l : LineLedger) (keys : List String) {key : String}
    (h : l.contains key = true) :
    LineLedger.contains { l with pending := l.pending ++ keys } key = true := by
  simp only [LineLedger.contains, Bool.or_eq_true, List.contains_iff_mem, List.mem_append] at h ⊢
  rcases h with h | h
  · exact .inl h
  · exact .inr (.inl h)

namespace Reserves

variable {file : String} {rest : List (UInt32 × Option Label)} {added : List (UInt32 × Label)}
  {before after : LineLedger} {line : UInt32}

theorem sound (h : Reserves file rest added before after) (e : UInt32 × Label) (he : e ∈ added) :
    (e.1, some e.2) ∈ rest :=
  h.listed.subset (List.mem_map_of_mem (f := fun e : UInt32 × Label => (e.1, some e.2)) he)

theorem contains (h : Reserves file rest added before after) {key : String}
    (hkey : before.contains key = true) : after.contains key = true := by
  simpa only [LineLedger.contains, h.committed, h.pending] using contains_append before _ hkey

/-- A line without an anchor, or one that is known already, adds nothing. -/
theorem pass (h : Reserves file rest added before after) {anchor : Option Label}
    (hknown : anchor.isSome → before.contains (LineLedger.key file line) = true) :
    Reserves file ((line, anchor) :: rest) added before after := by
  refine ⟨h.listed.cons _, h.distinct, h.fresh, h.committed, h.pending, fun n a hmem => ?_⟩
  rcases List.mem_cons.1 hmem with heq | hmem
  · cases heq
    exact h.contains (hknown rfl)
  · exact h.known n a hmem

/-- Any other line is added. -/
theorem add {anchor : Label} (h : Reserves file rest added
      { before with pending := before.pending ++ [LineLedger.key file line] } after)
    (hnew : before.contains (LineLedger.key file line) = false) :
    Reserves file ((line, some anchor) :: rest) ((line, anchor) :: added) before after := by
  have hpending : after.pending = before.pending ++
      ((line, anchor) :: added).map fun e => LineLedger.key file e.1 := by
    rw [h.pending]
    simp
  refine ⟨h.listed.cons_cons _, ?_, fun e he => ?_, h.committed, hpending, fun n a hmem => ?_⟩
  · rw [List.map_cons, List.nodup_cons]
    refine ⟨fun hmem => ?_, h.distinct⟩
    obtain ⟨e, he, hkey⟩ := List.mem_map.1 hmem
    have hfresh := h.fresh e he
    rw [hkey] at hfresh
    simp [LineLedger.contains] at hfresh
  · rcases List.mem_cons.1 he with rfl | he
    · exact hnew
    · have hfresh := Bool.eq_false_iff.1 (h.fresh e he)
      exact Bool.eq_false_iff.2 fun hcontains =>
        hfresh (contains_append before _ hcontains)
  · rcases List.mem_cons.1 hmem with heq | hmem
    · cases heq
      simp [LineLedger.contains, hpending]
    · exact h.known n a hmem

end Reserves

theorem probeLines_eq_ok {file : String} {anchored : List (UInt32 × Option Label)}
    {w w' : Workpiece} {u : Unit} (h : probeLines file anchored w = .ok u w') :
    ∃ added, Reserves file anchored added w.ledger w'.ledger ∧
      insertAll (added.map fun e => (e.2, .probe (.lineReached file e.1))) w.body =
        .ok u w'.body := by
  induction anchored generalizing w with
  | nil =>
    cases h
    exact ⟨[], ⟨by simp, by simp, by simp, rfl, by simp, by simp⟩, rfl⟩
  | cons e rest ih =>
    obtain ⟨line, anchor⟩ := e
    cases anchor with
    | none =>
      obtain ⟨added, hadded, hinsert⟩ := ih h
      exact ⟨added, hadded.pass (by simp), hinsert⟩
    | some anchor =>
      obtain ⟨⟨⟩, w₁, hline, hrest⟩ := bind_eq_ok.1 h
      obtain ⟨isNew, w₀, hreserve, hline⟩ := bind_eq_ok.1 hline
      obtain ⟨added, hadded, hinsert⟩ := ih hrest
      by_cases hknown : w.ledger.contains (LineLedger.key file line) = true
      · simp only [reserveLine, LineLedger.record, if_pos hknown] at hreserve
        cases hreserve
        cases hline
        exact ⟨added, hadded.pass fun _ => hknown, hinsert⟩
      · simp only [reserveLine, LineLedger.record, if_neg hknown] at hreserve
        cases hreserve
        obtain ⟨hinsert₁, hledger₁⟩ := onBody_eq_ok hline
        rw [hledger₁] at hadded
        refine ⟨(line, anchor) :: added, hadded.add (by simpa using hknown), ?_⟩
        rw [List.map_cons, insertAll, bind_of_ok _ hinsert₁]
        exact hinsert

/-! ## Branch probes -/

/-- What the probes of some branches do to a slot: they decompose its condition if it is one of
these branches, and leave it alone otherwise. -/
def Branches (target : MethodTarget) (branches : List (Label × UInt32 × UInt32))
    (declared available : List Local) (i : Instr) (ops : List Operation) (i' : Instr) : Prop :=
  (i.label ∉ branches.map (·.1) ∧ ops = [] ∧ i' = i) ∨
    ∃ line index, (i.label, line, index) ∈ branches ∧
      Instr.Decomposed ⟨target.file, line, index⟩ declared available i ops i'

theorem Branches.carried {target : MethodTarget} {branches : List (Label × UInt32 × UInt32)}
    {declared available : List Local} {i : Instr} {ops : List Operation} {s : Slot}
    (h : Branches target branches declared available i ops s.instr) : i.Carried s := by
  rcases h with ⟨-, -, hinstr⟩ | ⟨line, index, -, hdecomposed⟩
  · exact .of_eq hinstr
  · exact hdecomposed.carried

theorem exists_decompose_of_probeBranch {target : MethodTarget} {label : Label} {site : BranchSite}
    {b b' : Body} {u : Unit} (h : probeBranch target label site b = .ok u b') :
    ∃ condition rest b₁, b.condition? label = some condition ∧
      Decomposition.decompose ⟨label, site, target.signature⟩ condition b = .ok rest b₁ ∧
      insertBefore label (.probe (.branchReached site.file site.line site.index))
        (b₁.setCondition label rest) = .ok u b' := by
  replace h := get_bind_eq_ok.1 h
  cases hcondition : b.condition? label with
  | none =>
    rw [hcondition] at h
    cases h
  | some condition =>
    rw [hcondition] at h
    obtain ⟨rest, b₁, hdecompose, h⟩ := bind_eq_ok.1 h
    obtain ⟨⟨⟩, b₂, hset, h⟩ := bind_eq_ok.1 h
    cases hset
    exact ⟨condition, rest, b₁, rfl, hdecompose, h⟩

theorem probeBranch_eq_ok {target : MethodTarget} {label : Label} {site : BranchSite}
    {b b' : Body} {u : Unit} (h : probeBranch target label site b = .ok u b') :
    ∃ condition s b₁, b.condition? label = some condition ∧
      script site condition b.locals = .ok s ∧ b₁.locals = s.locals ∧
      Adds (onlyAt label s.ops) b b₁ ∧
      insertBefore label (.probe (.branchReached site.file site.line site.index))
        (b₁.setCondition label s.rest) = .ok u b' := by
  obtain ⟨condition, rest, b₁, hcondition, hdecompose, hinsert⟩ := exists_decompose_of_probeBranch h
  obtain ⟨s, hs, rfl, hlocals, hadds⟩ := Decomposition.decompose_adds hdecompose
  exact ⟨condition, s, b₁, hcondition, hs, hlocals, hadds, hinsert⟩

theorem probeBranch_labels_sublist {target : MethodTarget} {label : Label} {site : BranchSite}
    {b b' : Body} {u : Unit} (h : probeBranch target label site b = .ok u b') :
    b.labels.Sublist b'.labels := by
  obtain ⟨condition, s, b₁, -, -, -, hadds, hinsert⟩ := probeBranch_eq_ok h
  have hlabels := (insertBefore_adds rfl hinsert).labels
  rw [Body.setCondition_labels] at hlabels
  exact hadds.labels.trans hlabels

theorem probeBranch_layout {target : MethodTarget} {label : Label} {site : BranchSite}
    {b b' : Body} {u : Unit} (h : probeBranch target label site b = .ok u b')
    (hnodup : b'.labels.Nodup) {y : Layout} (hy : y.Lays b) (hlabel : label ∈ y.origins) :
    b.locals <+: b'.locals ∧ ∃ y' : Layout, y'.Lays b' ∧ y'.opening = y.opening ∧
      y'.closing = y.closing ∧
      List.Forall₂ (fun s s' => ∃ ops, s'.ops = s.ops ++ ops ∧
        (s.instr.label ≠ label ∧ ops = [] ∧ s'.instr = s.instr ∨
          s.instr.label = label ∧
            Instr.Decomposed site b.locals b'.locals s.instr ops s'.instr)) y.slots y'.slots := by
  have hsublist := probeBranch_labels_sublist h
  obtain ⟨condition, s, b₁, hcondition, hs, hlocals, hadds, hinsert⟩ := probeBranch_eq_ok h
  have hlast := insertBefore_adds rfl hinsert
  have hlocals' : b'.locals = s.locals := by
    rw [insertBefore_locals hinsert, Body.setCondition_locals, hlocals]
  have hnodup₁ : b₁.labels.Nodup := by
    have := hlast.labels
    rw [Body.setCondition_labels] at this
    exact hnodup.sublist this
  -- The layouts after the script, the new condition and the last probe.
  obtain ⟨y₁, hy₁, hgains₁⟩ := hadds.layout hnodup₁ y hy fun l hl => eq_of_onlyAt_ne_nil hl ▸ hlabel
  have hlabel₁ : label ∈ y₁.origins := hgains₁.origins_eq ▸ hlabel
  have hy₂ := hy₁.setCondition hnodup₁ hlabel₁ s.rest
  obtain ⟨y₃, hy₃, hgains₃⟩ := hlast.layout hnodup _ hy₂ fun l hl => by
    rw [Layout.setCondition_origins]
    exact eq_of_onlyAt_ne_nil hl ▸ hlabel₁
  refine ⟨hlocals' ▸ script_locals hs, y₃, hy₃, ?_, ?_, ?_⟩
  · rw [hgains₃.opening_eq, ← hgains₁.opening_eq]
    rfl
  · rw [hgains₃.closing_eq, ← hgains₁.closing_eq]
    rfl
  have hbranch : ∀ r ∈ y.slots, r.instr.label = label →
      ∃ target, r.instr.op = .branch condition target := by
    rintro r hr rfl
    exact Layout.exists_branch_of_condition? hy.instrs_eq (hnodup.sublist hsublist) hr hcondition
  have hslots₂ := hgains₃.slots
  rw [Layout.setCondition, List.forall₂_map_left_iff] at hslots₂
  refine forall₂_comp ?_ ((List.forall₂_and_left _ _).2 ⟨hbranch, hgains₁.slots⟩) hslots₂
  rintro r r₁ r₃ ⟨hr, hinstr, hops⟩ hlast
  by_cases hrlabel : r.instr.label = label
  · obtain ⟨target, htarget⟩ := hr hrlabel
    rw [if_pos (hinstr ▸ hrlabel)] at hlast
    obtain ⟨hinstr₃, hops₃⟩ := hlast
    refine ⟨s.ops ++ [.probe (.branchReached site.file site.line site.index)], ?_,
      .inr ⟨hrlabel, ?_⟩⟩
    · have hops₂ : r₃.ops = r₁.ops ++ [.probe (.branchReached site.file site.line site.index)] := by
        simpa [onlyAt, hinstr, hrlabel, Slot.ops] using hops₃
      rw [hops₂, hops, onlyAt, if_pos hrlabel, List.append_assoc]
    · rw [hinstr₃, Instr.setCondition_of_branch (hinstr ▸ htarget), hinstr]
      exact ⟨condition, target, _, s, htarget, List.prefix_rfl, hs, hlocals' ▸ List.prefix_rfl,
        rfl, rfl⟩
  · rw [if_neg (hinstr ▸ hrlabel)] at hlast
    obtain ⟨hinstr₃, hops₃⟩ := hlast
    refine ⟨[], ?_, .inl ⟨hrlabel, rfl, hinstr₃.trans hinstr⟩⟩
    rw [hops₃, hops, hinstr, onlyAt, if_neg hrlabel, onlyAt, if_neg hrlabel, List.append_nil]

theorem probeBranches_labels_sublist {target : MethodTarget}
    {branches : List (Label × UInt32 × UInt32)} {b b' : Body} {u : Unit}
    (h : probeBranches target branches b = .ok u b') : b.labels.Sublist b'.labels := by
  induction branches generalizing b with
  | nil =>
    cases h
    exact .refl _
  | cons e rest ih =>
    obtain ⟨⟨⟩, b₁, hfirst, hrest⟩ := bind_eq_ok.1 h
    exact (probeBranch_labels_sublist hfirst).trans (ih hrest)

theorem probeBranches_layout {target : MethodTarget} {branches : List (Label × UInt32 × UInt32)}
    {b b' : Body} {u : Unit} (h : probeBranches target branches b = .ok u b')
    (hbranches : (branches.map (·.1)).Nodup) (hnodup : b'.labels.Nodup) {y : Layout}
    (hy : y.Lays b) (hlabels : ∀ e ∈ branches, e.1 ∈ y.origins) :
    b.locals <+: b'.locals ∧ ∃ y' : Layout, y'.Lays b' ∧ y'.opening = y.opening ∧
      y'.closing = y.closing ∧
      List.Forall₂ (fun s s' => ∃ ops, s'.ops = s.ops ++ ops ∧
        Branches target branches b.locals b'.locals s.instr ops s'.instr) y.slots y'.slots := by
  induction branches generalizing b y with
  | nil =>
    cases h
    refine ⟨List.prefix_rfl, y, hy, rfl, rfl, List.forall₂_same.2 fun s _ => ⟨[], by simp, ?_⟩⟩
    exact .inl ⟨by simp, rfl, rfl⟩
  | cons e rest ih =>
    obtain ⟨label, line, index⟩ := e
    obtain ⟨⟨⟩, b₁, hfirst, hrest⟩ := bind_eq_ok.1 h
    have hnodup₁ := hnodup.sublist (probeBranches_labels_sublist hrest)
    rw [List.map_cons, List.nodup_cons] at hbranches
    obtain ⟨hinit₁, y₁, hy₁, hopening₁, hclosing₁, hslots₁⟩ :=
      probeBranch_layout hfirst hnodup₁ hy (hlabels (label, line, index) (by simp))
    have horigins : y₁.origins = y.origins := by
      refine Layout.origins_eq_of_slots (hslots₁.imp fun s s₁ hs => ?_)
      obtain ⟨ops, -, ⟨-, -, hinstr⟩ | ⟨-, hdecomposed⟩⟩ := hs
      · rw [hinstr]
      · exact hdecomposed.label_eq
    obtain ⟨hinit₂, y₂, hy₂, hopening₂, hclosing₂, hslots₂⟩ :=
      ih hrest hbranches.2 hy₁ fun e he => horigins ▸ hlabels e (by simp [he])
    refine ⟨hinit₁.trans hinit₂, y₂, hy₂, hopening₂.trans hopening₁,
      hclosing₂.trans hclosing₁, forall₂_comp ?_ hslots₁ hslots₂⟩
    rintro s s₁ s₂ ⟨ops₁, hops₁, hs₁⟩ ⟨ops₂, hops₂, hs₂⟩
    refine ⟨ops₁ ++ ops₂, by rw [hops₂, hops₁, List.append_assoc], ?_⟩
    rcases hs₁ with ⟨hne, rfl, hinstr⟩ | ⟨rfl, hdecomposed⟩
    · rw [hinstr] at hs₂
      rcases hs₂ with ⟨hnot, rfl, hinstr₂⟩ | ⟨line', index', hmem, hdecomposed⟩
      · exact .inl ⟨by simpa [hne] using hnot, rfl, hinstr₂⟩
      · exact .inr ⟨line', index', by simp [hmem], hdecomposed.mono hinit₁ List.prefix_rfl⟩
    · -- A branch is taken once, so what comes after leaves it alone.
      rcases hs₂ with ⟨-, rfl, hinstr₂⟩ | ⟨line', index', hmem, -⟩
      · refine .inr ⟨line, index, by simp, ?_⟩
        rw [List.append_nil, hinstr₂]
        exact hdecomposed.mono List.prefix_rfl hinit₂
      · rw [hdecomposed.label_eq] at hmem
        exact absurd (List.mem_map_of_mem (f := (·.1)) hmem) hbranches.1

/-! ## The weaver -/

/-- The branches that the weaver takes, with their lines and numbers. -/
def selectedBranches (lines : List UInt32) (b : Body) : List (Label × UInt32 × UInt32) :=
  numbered none (branchesOn lines b)

theorem map_label_numbered (previous : Option (UInt32 × UInt32)) (l : List (Label × UInt32)) :
    (numbered previous l).map (·.1) = l.map (·.1) := by
  induction l generalizing previous with
  | nil => rfl
  | cons e rest ih => simp [numbered, ih]

theorem map_fst_filterMap_sublist {α β : Type} {f : Instr → Option (α × β)} {g : Instr → α}
    (hf : ∀ i e, f i = some e → e.1 = g i) (l : List Instr) :
    ((l.filterMap f).map (·.1)).Sublist (l.map g) := by
  induction l with
  | nil => exact .slnil
  | cons i rest ih =>
    cases hi : f i with
    | none =>
      rw [List.filterMap_cons_none hi, List.map_cons]
      exact ih.cons _
    | some e =>
      rw [List.filterMap_cons_some hi, List.map_cons, List.map_cons, hf i e hi]
      exact ih.cons_cons _

theorem mem_branchesOn {lines : List UInt32} {b : Body} {label : Label} {line : UInt32} :
    (label, line) ∈ branchesOn lines b ↔
      ∃ i ∈ b.instrs, i.op.isBranch ∧ i.sourceLine? = some line ∧ line ∈ lines ∧
        i.label = label := by
  unfold branchesOn
  rw [List.mem_filterMap]
  refine exists_congr fun i => and_congr_right fun _ => ?_
  cases hbranch : i.op.isBranch <;> cases hline : i.sourceLine? with
  | none => simp
  | some n =>
    by_cases hn : n ∈ lines
    · simp only [if_pos, List.contains_iff_mem, hn]
      grind
    · simp only [List.contains_iff_mem, hn]
      grind

theorem branchesOn_labels_sublist (lines : List UInt32) (b : Body) :
    ((branchesOn lines b).map (·.1)).Sublist b.labels := by
  refine map_fst_filterMap_sublist (fun i e h => ?_) b.instrs
  split at h
  · split at h
    · split at h <;> cases h
      rfl
    · cases h
  · cases h

theorem map_numbered (previous : Option (UInt32 × UInt32)) (l : List (Label × UInt32)) :
    (numbered previous l).map (fun e => (e.1, e.2.1)) = l := by
  induction l generalizing previous with
  | nil => rfl
  | cons e rest ih => simp [numbered, ih]

/-- Where labels are distinct, an instruction whose label is taken is a branch on one of the
lines. -/
theorem of_mem_selectedBranches {lines : List UInt32} {b : Body} (hnodup : b.labels.Nodup)
    {i : Instr} (hi : i ∈ b.instrs) {line index : UInt32}
    (h : (i.label, line, index) ∈ selectedBranches lines b) :
    i.op.isBranch = true ∧ i.sourceLine? = some line ∧ line ∈ lines := by
  have hon : (i.label, line) ∈ branchesOn lines b := by
    rw [← map_numbered none (branchesOn lines b)]
    exact List.mem_map_of_mem (f := fun e : Label × UInt32 × UInt32 => (e.1, e.2.1)) h
  obtain ⟨j, hj, hbranch, hline, hmem, hlabel⟩ := mem_branchesOn.1 hon
  obtain rfl : j = i := List.inj_on_of_nodup_map hnodup hj hi hlabel
  exact ⟨hbranch, hline, hmem⟩

theorem selectedBranches_labels_sublist (lines : List UInt32) (b : Body) :
    ((selectedBranches lines b).map (·.1)).Sublist b.labels := by
  rw [selectedBranches, map_label_numbered]
  exact branchesOn_labels_sublist lines b

/-- What was woven in has no line, so the branches on lines are those that were there before. -/
theorem branchesOn_of_layout {lines : List UInt32} {b b' : Body} {y : Layout} (hy : y.Lays b')
    (hslots : List.Forall₂ (fun i s => s.instr = i) b.instrs y.slots) :
    branchesOn lines b' = branchesOn lines b := by
  unfold branchesOn
  refine hy.filterMap_eq hslots (fun e _ => ?_) fun i s hs => ?_
  · simp only [wovenInstr_sourceLine?]
    split <;> rfl
  · have hbranch : ∀ g : Label → Label, (i.retarget g).op.isBranch = i.op.isBranch := by
      intro g
      obtain ⟨label, line, op⟩ := i
      cases op <;> rfl
    simp only [hs, hbranch, Instr.retarget_sourceLine?, Instr.retarget_label]

/-- The requested lines that the weaver has to do with in a body: none if it skips the method. -/
def linesIn (settings : Settings) (selection : LineSelection) (target : MethodTarget) (b : Body) :
    List UInt32 :=
  match productSkip? settings target with
  | some _ => []
  | none => matchedLines (selection.linesFor target.file) settings.lineTolerance b

/-- The line probes that were added before an instruction. -/
def lineProbes (file : String) (added : List (UInt32 × Label)) (label : Label) : List Operation :=
  (added.filter fun e => e.2 = label).map fun e => .probe (.lineReached file e.1)

theorem opsAt_lineProbes (file : String) (added : List (UInt32 × Label)) :
    opsAt (added.map fun e => (e.2, .probe (.lineReached file e.1))) = lineProbes file added := by
  funext label
  simp [opsAt, lineProbes, List.filter_map, Function.comp_def]

/-- Line probes are inserted first, and then the branches that are left are decomposed. -/
theorem probe_eq_ok {target : MethodTarget} {lines : List UInt32} {w w' : Workpiece} {u : Unit}
    (h : probe target lines w = .ok u w') :
    ∃ added b u₁ u₂, Reserves target.file (anchors w.body lines) added w.ledger w'.ledger ∧
      insertAll (added.map fun e => (e.2, .probe (.lineReached target.file e.1))) w.body =
        .ok u₁ b ∧
      probeBranches target (selectedBranches lines b) b = .ok u₂ w'.body := by
  replace h := get_bind_eq_ok.1 h
  obtain ⟨u₁, w₁, hlines, hbranches⟩ := bind_eq_ok.1 h
  obtain ⟨added, hadded, hinsert⟩ := probeLines_eq_ok hlines
  obtain ⟨hbranches, hledger⟩ := onBody_eq_ok hbranches
  replace hbranches := get_bind_eq_ok.1 hbranches
  exact ⟨added, w₁.body, u₁, u, hledger ▸ hadded, hinsert, hbranches⟩

theorem probe_layout {target : MethodTarget} {lines : List UInt32} {w w' : Workpiece} {u : Unit}
    (h : probe target lines w = .ok u w') (hnodup : w'.body.labels.Nodup) :
    w.body.locals <+: w'.body.locals ∧ ∃ added,
      Reserves target.file (anchors w.body lines) added w.ledger w'.ledger ∧
      ∃ y : Layout, y.Lays w'.body ∧ y.opening = [] ∧ y.closing = [] ∧
        List.Forall₂ (fun i s => ∃ ops, s.ops = lineProbes target.file added i.label ++ ops ∧
          Branches target (selectedBranches lines w.body) w.body.locals w'.body.locals i ops
            s.instr) w.body.instrs y.slots := by
  obtain ⟨added, b, u₁, u₂, hadded, hinsert, hbranches⟩ := probe_eq_ok h
  obtain ⟨hlocals, hadds⟩ := insertAll_adds (fun e he => by
    obtain ⟨e, -, rfl⟩ := List.mem_map.1 he
    rfl) hinsert
  rw [opsAt_lineProbes] at hadds
  have hnodup₁ : b.labels.Nodup := hnodup.sublist (probeBranches_labels_sublist hbranches)
  obtain ⟨y₁, hy₁, hopening₁, hclosing₁, hslots₁⟩ := hadds.exists_layout hnodup₁ fun l hl => by
    obtain ⟨op, hop⟩ := List.exists_mem_of_ne_nil _ hl
    obtain ⟨e, he, -⟩ := List.mem_map.1 hop
    obtain ⟨he, hlabel⟩ := List.mem_filter.1 he
    have hanchor := hadded.sound e he
    simp only [anchors, List.mem_map, Prod.mk.injEq] at hanchor
    obtain ⟨n, -, -, hfind⟩ := hanchor
    obtain ⟨i, hi, hilabel, -⟩ := AnchorFinder.exists_instr_of_find? hfind
    rw [← of_decide_eq_true hlabel, ← hilabel]
    exact List.mem_map_of_mem hi
  -- The line probes leave the branches where they were.
  rw [selectedBranches, branchesOn_of_layout hy₁ (hslots₁.imp fun i s hs => hs.1)] at hbranches
  have hsublist := selectedBranches_labels_sublist lines w.body
  have horigins : y₁.origins = w.body.labels := by
    rw [← Layout.origins_ofInstrs]
    refine Layout.origins_eq_of_slots ?_
    rw [Layout.ofInstrs, List.forall₂_map_left_iff]
    exact hslots₁.imp fun i s hs => by rw [hs.1]
  obtain ⟨hinit, y, hy, hopening, hclosing, hslots⟩ := probeBranches_layout hbranches
    ((hnodup₁.sublist hadds.labels).sublist hsublist) hnodup hy₁ fun e he =>
      horigins ▸ hsublist.subset (List.mem_map_of_mem he)
  refine ⟨hlocals ▸ hinit, added, hadded, y, hy, hopening.trans hopening₁,
    hclosing.trans hclosing₁, forall₂_comp ?_ hslots₁ hslots⟩
  rintro i s₁ s ⟨rfl, hops₁⟩ ⟨ops, hops, hs⟩
  exact ⟨ops, by rw [hops, hops₁], hlocals ▸ hs⟩

theorem weave_reports {settings : Settings} {selection : LineSelection} {target : MethodTarget}
    {w w' : Workpiece} {o : Outcome} (h : weave settings selection target w = .ok o w') :
    o.Reports (productSkip? settings target) w.body w'.body := by
  cases hskip : productSkip? settings target with
  | some reason =>
    simp only [weave, hskip] at h
    cases h
    exact .skipped rfl rfl
  | none =>
    simp only [weave, hskip] at h
    replace h := get_bind_eq_ok.1 h
    split at h
    · cases h
      exact .unchanged rfl
    · obtain ⟨u, w₁, -, h⟩ := bind_eq_ok.1 h
      cases h
      exact .counted rfl

/-- The product weaver probes the lines that it has to do with, if there are any. -/
theorem weave_eq_ok {settings : Settings} {selection : LineSelection} {target : MethodTarget}
    {w w' : Workpiece} {o : Outcome} (h : weave settings selection target w = .ok o w') :
    linesIn settings selection target w.body = [] ∧ w' = w ∨
      ∃ u, probe target (linesIn settings selection target w.body) w = .ok u w' := by
  unfold linesIn
  cases hskip : productSkip? settings target with
  | some reason =>
    simp only [weave, hskip] at h
    cases h
    exact .inl ⟨rfl, rfl⟩
  | none =>
    simp only [weave, hskip] at h
    replace h := get_bind_eq_ok.1 h
    split at h
    · next hempty =>
      cases h
      exact .inl ⟨List.isEmpty_iff.1 hempty, rfl⟩
    · obtain ⟨u, w₁, hprobe, h⟩ := bind_eq_ok.1 h
      cases h
      exact .inr ⟨u, hprobe⟩

/-- The product weaver puts line probes before the anchors of lines and decompositions before the
branches on lines, and rewrites those branches. -/
theorem weave_layout {settings : Settings} {selection : LineSelection} {target : MethodTarget}
    {w w' : Workpiece} {o : Outcome} (h : weave settings selection target w = .ok o w')
    (hnodup : w'.body.labels.Nodup) :
    w.body.locals <+: w'.body.locals ∧ ∃ added,
      Reserves target.file (anchors w.body (linesIn settings selection target w.body)) added
        w.ledger w'.ledger ∧
      ∃ y : Layout, y.Lays w'.body ∧ y.opening = [] ∧ y.closing = [] ∧
        List.Forall₂ (fun i s => ∃ ops, s.ops = lineProbes target.file added i.label ++ ops ∧
          Branches target (selectedBranches (linesIn settings selection target w.body) w.body)
            w.body.locals w'.body.locals i ops s.instr) w.body.instrs y.slots := by
  rcases weave_eq_ok h with ⟨hnone, rfl⟩ | ⟨u, hprobe⟩
  · -- Without lines there is nothing to insert.
    rw [hnone]
    refine ⟨List.prefix_rfl, [], ⟨by simp, by simp, by simp, rfl, by simp, by simp [anchors]⟩, _,
      Layout.ofInstrs_lays w'.body, rfl, rfl, ?_⟩
    rw [Layout.ofInstrs, List.forall₂_map_right_iff]
    refine List.forall₂_same.2 fun i _ => ⟨[], by simp [Slot.ops, lineProbes], ?_⟩
    have hbranches : branchesOn [] w'.body = [] :=
      List.eq_nil_iff_forall_not_mem.2 fun e he => by
        obtain ⟨_, _, _, _, hline, _⟩ := mem_branchesOn.1 he
        cases hline
    have hselected : selectedBranches [] w'.body = [] := by
      rw [selectedBranches, hbranches]
      rfl
    exact .inl ⟨by simp [hselected], rfl, rfl⟩
  · exact probe_layout hprobe hnodup

end Product

end TraceWeave
