import TraceWeave.Proofs.Machine.Walks
import Mathlib.Data.List.NodupEquivFin

/-!
# Probes that guard instructions

A probe guards an instruction, its anchor, if it stands before it and everything from the probe up
to the anchor is a block of inserted instructions (`Body.Guards`).  Then the probe fires exactly
when the anchor is reached: in every run from the entry, the probe is executed once before each
execution of the anchor, and after the probe comes the anchor (`Body.Guards.firesAt`).  Two probes
that guard the same anchor fire in the order in which they stand (`Body.Guards.firesInOrder`).
-/

namespace TraceWeave

/-- In a run, a probe fires exactly when its anchor is reached.  Labels that are not old are those
of inserted instructions. -/
structure Run.FiresAt (run : Run) (old : List Label) (probe anchor : Label) : Prop where
  /-- Among the inserted instructions right before an execution of the anchor, the probe is executed
  exactly once. -/
  once : ∀ before after, run.labels = before ++ anchor :: after →
    (before.rtakeWhile (· ∉ old)).count probe = 1
  /-- After an execution of the probe, the first instruction that is not inserted is the anchor,
  unless the run stops with a fault before there is one. -/
  leads : ∀ before after, run.labels = before ++ probe :: after →
    after.find? (· ∈ old) = some anchor ∨ (∀ l ∈ after, l ∉ old) ∧ run.faults = true

/-- In a run, among the inserted instructions right before an execution of the anchor, one probe is
executed before another. -/
def Run.FiresInOrder (run : Run) (old : List Label) (probe probe' anchor : Label) : Prop :=
  ∀ before after, run.labels = before ++ anchor :: after →
    [probe, probe'].Sublist (before.rtakeWhile (· ∉ old))

theorem rtakeWhile_append_of_pos {α : Type} {p : α → Bool} {l l' : List α}
    (h : ∀ a ∈ l', p a = true) : (l ++ l').rtakeWhile p = l.rtakeWhile p ++ l' := by
  rw [List.rtakeWhile, List.reverse_append, List.takeWhile_append_of_pos (by simpa using h),
    List.reverse_append, List.reverse_reverse, List.rtakeWhile]

/-- In a list of distinct members, a member before another one stands at a lesser position. -/
theorem lt_of_pair_sublist {α : Type} {l : List α} (hnodup : l.Nodup) {a a' : α}
    (h : [a, a'].Sublist l) {k k' : Nat} (ha : l[k]? = some a) (ha' : l[k']? = some a') :
    k < k' := by
  obtain ⟨f, hf⟩ := List.sublist_iff_exists_orderEmbedding_getElem?_eq.1 h
  rw [eq_of_getElem?_eq_some hnodup ha (hf 0).symm, eq_of_getElem?_eq_some hnodup ha' (hf 1).symm]
  exact f.strictMono Nat.zero_lt_one

namespace Body

/-- From a probe at one position up to its anchor at a later one, there is a block of instructions
that are not old. -/
structure GuardsAt (b : Body) (old : List Label) (probe anchor : Label) (first stop : Nat) :
    Prop where
  lt : first < stop
  block : b.Block first stop
  probe : b.labels[first]? = some probe
  anchor : b.labels[stop]? = some anchor
  inserted : ∀ l ∈ b.line first stop, l ∉ old

/-- A probe guards an anchor. -/
def Guards (b : Body) (old : List Label) (probe anchor : Label) : Prop :=
  ∃ first stop, b.GuardsAt old probe anchor first stop

variable {b : Body} {old : List Label} {probe probe' anchor : Label} {first stop : Nat}

namespace GuardsAt

variable (h : b.GuardsAt old probe anchor first stop)

include h

theorem line_eq : b.line first stop = probe :: b.line (first + 1) stop :=
  line_eq_cons h.lt h.probe

/-- After the probe, a walk comes to the anchor past inserted instructions, or fails before. -/
theorem next (hnodup : b.labels.Nodup) {position : Nat} {after : List Label} {fails : Bool}
    (hwalk : b.Walks position (probe :: after) fails) :
    b.line (first + 1) stop ++ [anchor] <+: after ∨
      after <+: b.line (first + 1) stop ∧ fails = true := by
  obtain rfl := eq_of_getElem?_eq_some hnodup h.probe hwalk.getElem?_position
  have hrest := hwalk.to_stop h.block (Nat.le_refl _) (Nat.le_of_lt h.lt) h.anchor
  rw [h.line_eq, List.cons_append, List.cons_prefix_cons, List.cons_prefix_cons] at hrest
  exact hrest.imp (·.2) fun hfails => ⟨hfails.1.2, hfails.2⟩

theorem not_mem_next {l : Label} (hl : l ∈ b.line (first + 1) stop) : l ∉ old := by
  refine h.inserted l ?_
  rw [h.line_eq]
  exact List.mem_cons_of_mem _ hl

/-- The inserted instructions right before an execution of the anchor end with those from the probe
on. -/
theorem exists_rtakeWhile (hnodup : b.labels.Nodup) {before after : List Label} {fails : Bool}
    (hwalk : b.Walks 0 (before ++ anchor :: after) fails) :
    ∃ front, before = front ++ b.line first stop ∧
      before.rtakeWhile (· ∉ old) = front.rtakeWhile (· ∉ old) ++ b.line first stop := by
  obtain ⟨front, rfl⟩ := hwalk.line_suffix h.block hnodup (.inl (Nat.zero_le _)) h.block.le
    (Nat.le_refl _) h.anchor
  exact ⟨front, rfl, rtakeWhile_append_of_pos fun l hl => decide_eq_true (h.inserted l hl)⟩

/-- Among the inserted instructions before those, the probe is not executed: the anchor would have
come between. -/
theorem not_mem_rtakeWhile (hnodup : b.labels.Nodup) (hanchor : anchor ∈ old)
    {front after : List Label} {fails : Bool}
    (hwalk : b.Walks 0 (front ++ (b.line first stop ++ anchor :: after)) fails) :
    probe ∉ front.rtakeWhile (· ∉ old) := by
  intro hmem
  obtain ⟨x, hx⟩ := List.rtakeWhile_suffix (fun l => decide (l ∉ old)) front
  obtain ⟨u, v, huv⟩ := List.append_of_mem hmem
  have hbetween : ∀ l ∈ v ++ b.line first stop, l ∉ old := by
    intro l hl
    rcases List.mem_append.1 hl with hl | hl
    · have hnew : l ∈ front.rtakeWhile (· ∉ old) := by
        rw [huv]
        simp [hl]
      simpa using List.mem_rtakeWhile_imp hnew
    · exact h.inserted l hl
  have hearlier : front ++ (b.line first stop ++ anchor :: after) =
      (x ++ u) ++ probe :: (v ++ b.line first stop ++ anchor :: after) := by
    rw [← hx, huv]
    simp
  obtain ⟨position, hrest⟩ := (hearlier ▸ hwalk).exists_rest
  rcases h.next hnodup hrest with hnext | ⟨hnext, -⟩
  · have hlength : (b.line (first + 1) stop ++ [anchor]).length ≤
        (v ++ b.line first stop).length := by
      rw [h.line_eq]
      simp
    have hbegins := List.prefix_of_prefix_length_le hnext (List.prefix_append _ _) hlength
    exact hbetween anchor (hbegins.subset (by simp)) hanchor
  · exact h.not_mem_next (hnext.subset (by simp)) hanchor

end GuardsAt

section

variable (hnodup : b.labels.Nodup) (limit : Nat) (call : Call) (rounds : Nat) (frame : Frame)
  (s : MachineState)

include hnodup

/-- A probe that guards an anchor fires exactly when the anchor is reached. -/
theorem Guards.firesAt (h : b.Guards old probe anchor) (hanchor : anchor ∈ old) :
    (b.watch limit call rounds frame 0 s).FiresAt old probe anchor := by
  obtain ⟨first, stop, h⟩ := h
  have hwalk := b.walks_watch limit call rounds frame 0 s
  constructor
  · intro before after hsplit
    rw [hsplit] at hwalk
    obtain ⟨front, rfl, hbefore⟩ := h.exists_rtakeWhile hnodup hwalk
    have hline : (b.line first stop).count probe = 1 := by
      refine List.count_eq_one_of_mem ?_ (h.line_eq ▸ List.mem_cons_self)
      exact hnodup.sublist ((List.drop_sublist _ _).trans (List.take_sublist _ _))
    have hfront := h.not_mem_rtakeWhile hnodup hanchor (List.append_assoc _ _ _ ▸ hwalk)
    rw [hbefore, List.count_append, List.count_eq_zero_of_not_mem hfront, hline]
  · intro before after hsplit
    rw [hsplit] at hwalk
    obtain ⟨position, hrest⟩ := hwalk.exists_rest
    rcases h.next hnodup hrest with ⟨rest, rfl⟩ | ⟨hnext, hfails⟩
    · refine .inl ?_
      have hnone : (b.line (first + 1) stop).find? (· ∈ old) = none := by
        rw [List.find?_eq_none]
        exact fun l hl hmem => h.not_mem_next hl (of_decide_eq_true hmem)
      rw [List.append_assoc, List.find?_append, hnone, Option.none_or, List.singleton_append,
        List.find?_cons, decide_eq_true hanchor]
    · exact .inr ⟨fun l hl => h.not_mem_next (hnext.subset hl), hfails⟩

/-- Two probes that guard an anchor fire in the order in which they stand. -/
theorem Guards.firesInOrder (h : b.Guards old probe anchor) (h' : b.Guards old probe' anchor)
    (horder : [probe, probe'].Sublist b.labels) :
    (b.watch limit call rounds frame 0 s).FiresInOrder old probe probe' anchor := by
  obtain ⟨first, stop, h⟩ := h
  obtain ⟨first', stop', h'⟩ := h'
  have hlt := lt_of_pair_sublist hnodup horder h.probe h'.probe
  obtain rfl := eq_of_getElem?_eq_some hnodup h.anchor h'.anchor
  intro before after hsplit
  have hwalk := b.walks_watch limit call rounds frame 0 s
  rw [hsplit] at hwalk
  obtain ⟨front, rfl, hbefore⟩ := h.exists_rtakeWhile hnodup hwalk
  have hmem : probe' ∈ b.line (first + 1) stop := mem_line.2 ⟨first', hlt, h'.lt, h'.probe⟩
  rw [hbefore, h.line_eq]
  refine List.Sublist.trans ?_ (List.sublist_append_right _ _)
  exact (List.singleton_sublist.2 hmem).cons_cons probe

end

end Body

end TraceWeave
