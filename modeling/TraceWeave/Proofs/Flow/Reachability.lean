import TraceWeave.Flow.Graph
import Mathlib.Data.List.Basic
import Mathlib.Logic.Relation

/-!
# What a search finds

The edges of the graph of a body are read off its instructions (`edge_ofBody_iff`), and both
searches find exactly what a path of edges leads to from an entry (`mem_reachable_iff`,
`reaches_iff_reachable`), in every graph: there may be cycles, and edges and entries may name labels
that no node has.

Both arguments have the same two halves.  An invariant says that what was seen can be reached, and
that what an edge leads to from there was seen or is waiting; once nothing is waiting, the two are
the same.  And the rounds suffice for that: what is waiting, together with the edges that may still
put something into the queue, becomes less with every round.
-/

namespace TraceWeave

namespace FlowGraph

/-- The graph has an edge. -/
def Edge (g : FlowGraph) (l l' : Label) : Prop := (l, l') ∈ g.edges

/-- A path of edges leads to a label from an entry. -/
def Reachable (g : FlowGraph) (l : Label) : Prop :=
  ∃ e ∈ g.entries, Relation.ReflTransGen g.Edge e l

variable {g : FlowGraph} {l l' : Label}

theorem Reachable.of_mem_entries (h : l ∈ g.entries) : g.Reachable l := ⟨l, h, .refl⟩

theorem Reachable.edge (h : g.Reachable l) (hedge : g.Edge l l') : g.Reachable l' := by
  obtain ⟨e, he, hpath⟩ := h
  exact ⟨e, he, hpath.tail hedge⟩

/-- A property of the entries that edges carry on holds of all that is reachable. -/
theorem Reachable.forall {P : Label → Prop} (hentries : ∀ e ∈ g.entries, P e)
    (hedges : ∀ l l', P l → g.Edge l l' → P l') (h : g.Reachable l) : P l := by
  obtain ⟨e, he, hpath⟩ := h
  induction hpath with
  | refl => exact hentries e he
  | tail _ hedge ih => exact hedges _ _ ih hedge

theorem mem_successors : l' ∈ g.successors l ↔ g.Edge l l' := by
  simp [successors, Edge]

/-! ## Edges of bodies -/

theorem entries_addEdge (g : FlowGraph) (e : Label × Label) :
    (g.addEdge e).entries = g.entries := by
  unfold addEdge
  split <;> rfl

theorem mem_edges_addEdge {e e' : Label × Label} :
    e ∈ (g.addEdge e').edges ↔ e ∈ g.edges ∨ e = e' := by
  unfold addEdge
  split
  · next h =>
    rw [List.contains_iff_mem] at h
    exact ⟨.inl, fun h' => h'.elim id fun heq => heq ▸ h⟩
  · simp

/-- Adding edges keeps the entries and loses no edge. -/
theorem foldl_addEdge (new : List (Label × Label)) (g : FlowGraph) :
    (new.foldl addEdge g).entries = g.entries ∧
      ∀ e, e ∈ (new.foldl addEdge g).edges ↔ e ∈ g.edges ∨ e ∈ new := by
  induction new generalizing g with
  | nil => simp
  | cons e' rest ih =>
    obtain ⟨hentries, hedges⟩ := ih (g.addEdge e')
    refine ⟨hentries.trans (entries_addEdge g e'), fun e => ?_⟩
    rw [List.foldl_cons, hedges, mem_edges_addEdge, List.mem_cons, or_assoc]

theorem entries_ofBody (b : Body) :
    (ofBody b).entries = b.instrs.head?.toList.map (·.label) := (foldl_addEdge _ _).1

theorem mem_entries_ofBody {b : Body} :
    l ∈ (ofBody b).entries ↔ ∃ i, b.instrs[0]? = some i ∧ i.label = l := by
  rw [entries_ofBody, ← List.head?_eq_getElem?]
  cases b.instrs.head? <;> simp [eq_comm]

/-- A label follows the instruction at a position: as the target of its jump, or as the label of the
next instruction if control goes on to it. -/
def GoesTo (instrs : List Instr) (k : Nat) (i : Instr) (l' : Label) : Prop :=
  i.op.target? = some l' ∨
    i.op.isTerminator = false ∧ ∃ j, instrs[k + 1]? = some j ∧ j.label = l'

theorem mem_waysOn {instrs : List Instr} :
    (l, l') ∈ waysOn instrs ↔
      ∃ k i, instrs[k]? = some i ∧ i.label = l ∧ GoesTo instrs k i l' := by
  induction instrs with
  | nil => simp [waysOn]
  | cons i rest ih =>
    have hfirst : (l, l') ∈ waysOn (i :: rest) ↔
        (i.label = l ∧ GoesTo (i :: rest) 0 i l') ∨ (l, l') ∈ waysOn rest := by
      rw [waysOn, List.append_assoc, List.mem_append, List.mem_append, ← or_assoc]
      refine or_congr ?_ Iff.rfl
      cases hterminator : i.op.isTerminator <;>
        simp [GoesTo, List.head?_eq_getElem?, hterminator] <;> grind
    rw [hfirst, ih]
    constructor
    · rintro (⟨hlabel, hgoes⟩ | ⟨k, j, hj, hlabel, hgoes⟩)
      · exact ⟨0, i, rfl, hlabel, hgoes⟩
      · exact ⟨k + 1, j, hj, hlabel, hgoes⟩
    · rintro ⟨k, j, hj, hlabel, hgoes⟩
      cases k with
      | zero =>
        cases hj
        exact .inl ⟨hlabel, hgoes⟩
      | succ k => exact .inr ⟨k, j, hj, hlabel, hgoes⟩

theorem edge_ofBody_iff {b : Body} :
    (ofBody b).Edge l l' ↔
      ∃ k i, b.instrs[k]? = some i ∧ i.label = l ∧ GoesTo b.instrs k i l' := by
  rw [Edge, ofBody, (foldl_addEdge _ _).2, ← mem_waysOn]
  simp

/-! ## The search that marks what goes into the queue -/

namespace Search

variable {s : Search} {labels : List Label}

theorem mem_seen_mark : l ∈ (s.mark l').seen ↔ l ∈ s.seen ∨ l = l' := by
  unfold mark
  split <;> simp_all [or_comm]

theorem mem_queue_mark : l ∈ (s.mark l').queue ↔ l ∈ s.queue ∨ l = l' ∧ l' ∉ s.seen := by
  unfold mark
  split <;> simp_all

theorem mem_seen_foldl_mark :
    l ∈ (labels.foldl mark s).seen ↔ l ∈ s.seen ∨ l ∈ labels := by
  induction labels generalizing s with
  | nil => simp
  | cons l' rest ih => rw [List.foldl_cons, ih, mem_seen_mark, List.mem_cons, or_assoc]

theorem mem_queue_foldl_mark :
    l ∈ (labels.foldl mark s).queue ↔ l ∈ s.queue ∨ l ∈ labels ∧ l ∉ s.seen := by
  induction labels generalizing s with
  | nil => simp
  | cons l' rest ih =>
    rw [List.foldl_cons, ih, mem_queue_mark, mem_seen_mark]
    grind

theorem length_queue_foldl_mark_le (labels : List Label) (s : Search) :
    (labels.foldl mark s).queue.length ≤ s.queue.length + labels.length := by
  induction labels generalizing s with
  | nil => simp
  | cons l rest ih =>
    have hmark : (s.mark l).queue.length ≤ s.queue.length + 1 := by
      unfold mark
      split <;> simp
    have := ih (s.mark l)
    simp only [List.foldl_cons, List.length_cons]
    omega

/-- At any time of a search, the labels in the queue have been seen, what has been seen is
reachable, and whatever an edge leads to from there has been seen, unless its source is in the
queue. -/
structure Invariant (g : FlowGraph) (s : Search) : Prop where
  queued : ∀ l ∈ s.queue, l ∈ s.seen
  found : ∀ l ∈ s.seen, g.Reachable l
  entries : ∀ l ∈ g.entries, l ∈ s.seen
  followed : ∀ l ∈ s.seen, l ∉ s.queue → ∀ l', g.Edge l l' → l' ∈ s.seen

theorem Invariant.start (g : FlowGraph) : Invariant g (g.entries.foldl mark {}) where
  queued l hl := by
    rw [mem_queue_foldl_mark] at hl
    exact mem_seen_foldl_mark.2 (.inr (by simpa using hl))
  found l hl := .of_mem_entries (by simpa [mem_seen_foldl_mark] using hl)
  entries l hl := mem_seen_foldl_mark.2 (.inr hl)
  followed l hl hwaits := by
    simp_all [mem_seen_foldl_mark, mem_queue_foldl_mark]

/-- One round: the edges of the first label of the queue are followed. -/
theorem Invariant.step {rest : List Label} (h : Invariant g s) (hqueue : s.queue = l :: rest) :
    Invariant g ((g.successors l).foldl mark { s with queue := rest }) where
  queued l' hl' := by
    rcases mem_queue_foldl_mark.1 hl' with hrest | ⟨hsuccessor, -⟩
    · exact mem_seen_foldl_mark.2 (.inl (h.queued l' (hqueue ▸ List.mem_cons_of_mem l hrest)))
    · exact mem_seen_foldl_mark.2 (.inr hsuccessor)
  found l' hl' := by
    rcases mem_seen_foldl_mark.1 hl' with hseen | hsuccessor
    · exact h.found l' hseen
    · have hl : l ∈ s.seen := h.queued l (hqueue ▸ List.mem_cons_self)
      exact (h.found l hl).edge (mem_successors.1 hsuccessor)
  entries l' hl' := mem_seen_foldl_mark.2 (.inl (h.entries l' hl'))
  followed m hm hwaits m' hedge := by
    by_cases hml : m = l
    · exact mem_seen_foldl_mark.2 (.inr (mem_successors.2 (hml ▸ hedge)))
    · rw [mem_seen_foldl_mark] at hm
      rw [mem_queue_foldl_mark] at hwaits
      have hseen : m ∈ s.seen := by tauto
      have hnot : m ∉ s.queue := by simp_all
      exact mem_seen_foldl_mark.2 (.inl (h.followed m hseen hnot m' hedge))

end Search

theorem Search.Invariant.spread {s : Search} (h : s.Invariant g) (rounds : Nat) :
    (g.spread rounds s).Invariant g := by
  fun_induction FlowGraph.spread g rounds s with
  | case1 => exact h
  | case2 => exact h
  | case3 rounds s l rest hqueue ih => exact ih (h.step hqueue)

/-- The edges whose targets have not been seen. -/
def unseen (g : FlowGraph) (seen : List Label) : List (Label × Label) :=
  g.edges.filter fun e => e.2 ∉ seen

theorem length_unseen_cons_lt {seen : List Label} (hedge : g.Edge l l') (hnew : l' ∉ seen) :
    (g.unseen (l' :: seen)).length < (g.unseen seen).length := by
  have hrest : g.unseen (l' :: seen) = (g.unseen seen).filter fun e => e.2 ≠ l' := by
    rw [unseen, unseen, List.filter_filter]
    exact List.filter_congr fun e _ => by simp
  rw [hrest, List.length_filter_lt_length_iff_exists]
  exact ⟨(l, l'), List.mem_filter.2 ⟨hedge, by simpa using hnew⟩, by simp⟩

/-- A label that is put into the queue was not seen, and an edge leads to it. -/
theorem length_queue_foldl_mark_add_unseen_le {labels : List Label}
    (hlabels : ∀ l' ∈ labels, g.Edge l l') (s : Search) :
    (labels.foldl Search.mark s).queue.length + (g.unseen (labels.foldl Search.mark s).seen).length
      ≤ s.queue.length + (g.unseen s.seen).length := by
  induction labels generalizing s with
  | nil => exact Nat.le_refl _
  | cons l' rest ih =>
    refine Nat.le_trans (ih (fun m hm => hlabels m (List.mem_cons_of_mem l' hm)) _) ?_
    by_cases hseen : l' ∈ s.seen
    · have hmark : s.mark l' = s := if_pos (List.contains_iff_mem.2 hseen)
      exact Nat.le_of_eq (by rw [hmark])
    · rw [Search.mark, if_neg (mt List.contains_iff_mem.1 hseen)]
      have := length_unseen_cons_lt (hlabels l' List.mem_cons_self) hseen
      simp only [List.length_append, List.length_singleton]
      omega

/-- With enough rounds, the search goes on until nothing is waiting. -/
theorem queue_spread_eq_nil {rounds : Nat} {s : Search}
    (h : s.queue.length + (g.unseen s.seen).length ≤ rounds) : (g.spread rounds s).queue = [] := by
  fun_induction spread g rounds s with
  | case1 s => exact List.eq_nil_of_length_eq_zero (by omega)
  | case2 rounds s hqueue => exact hqueue
  | case3 rounds s l rest hqueue ih =>
    refine ih (Nat.le_trans (length_queue_foldl_mark_add_unseen_le
      (fun m hm => mem_successors.1 hm) _) ?_)
    rw [hqueue, List.length_cons] at h
    simp only
    omega

/-- The search for everything ends with nothing waiting. -/
theorem queue_spread_start_eq_nil {rounds : Nat} (h : g.rounds ≤ rounds) :
    (g.spread rounds (g.entries.foldl Search.mark {})).queue = [] := by
  have hentries := Search.length_queue_foldl_mark_le g.entries {}
  have hedges := List.length_filter_le
    (fun e : Label × Label => e.2 ∉ (g.entries.foldl Search.mark {}).seen) g.edges
  refine queue_spread_eq_nil ?_
  simp only [List.length_nil] at hentries
  rw [FlowGraph.rounds] at h
  rw [unseen]
  omega

/-- The search for everything finds exactly what is reachable. -/
theorem mem_reachable_iff : l ∈ g.reachable ↔ g.Reachable l := by
  have hdone := queue_spread_start_eq_nil (Nat.le_refl g.rounds)
  have hinvariant := (Search.Invariant.start g).spread g.rounds
  refine ⟨hinvariant.found l, Reachable.forall hinvariant.entries fun m m' hm hedge => ?_⟩
  exact hinvariant.followed m hm (by simp [hdone]) m' hedge

theorem spread_add (rounds more : Nat) (s : Search) :
    g.spread (rounds + more) s = g.spread more (g.spread rounds s) := by
  fun_induction spread g rounds s with
  | case1 => rw [Nat.zero_add]
  | case2 rounds s hqueue => cases more <;> simp [spread, hqueue]
  | case3 rounds s l rest hqueue ih =>
    rw [Nat.succ_add, spread, hqueue]
    exact ih

/-! ## The search that marks what comes out of the queue -/

/-- The edges that have not been followed. -/
def unfollowed (g : FlowGraph) (seen : List Label) : List (Label × Label) :=
  g.edges.filter fun e => e.1 ∉ seen

/-- A label that comes out of the queue for the first time has its edges followed. -/
theorem length_successors_add_unfollowed {seen : List Label} (hnew : l ∉ seen) :
    (g.successors l).length + (g.unfollowed (l :: seen)).length = (g.unfollowed seen).length := by
  have hsuccessors : g.edges.filter (·.1 == l) = (g.unfollowed seen).filter (·.1 == l) := by
    rw [unfollowed, List.filter_filter]
    exact List.filter_congr fun e _ => by by_cases he : e.1 = l <;> simp [he, hnew]
  have hrest : g.unfollowed (l :: seen) = (g.unfollowed seen).filter fun e => !(e.1 == l) := by
    rw [unfollowed, unfollowed, List.filter_filter]
    exact List.filter_congr fun e _ => by simp [not_or, beq_eq_decide]
  rw [successors, List.length_map, hsuccessors, hrest]
  exact (List.length_eq_length_filter_add _).symm

/-- At any time of a search for a target, what is in the queue is reachable, whatever an edge leads
to from a label that was seen has been seen or is in the queue, and the target has not been seen. -/
structure Seeking (g : FlowGraph) (target : Label) (seen queue : List Label) : Prop where
  found : ∀ l ∈ queue, g.Reachable l
  entries : ∀ l ∈ g.entries, l ∈ seen ∨ l ∈ queue
  followed : ∀ l ∈ seen, ∀ l', g.Edge l l' → l' ∈ seen ∨ l' ∈ queue
  missed : target ∉ seen

namespace Seeking

variable {target : Label} {seen rest : List Label}

/-- Nothing is waiting: the target is not reachable. -/
theorem not_reachable (h : g.Seeking target seen []) : ¬ g.Reachable target := by
  refine fun hreachable => h.missed (hreachable.forall (P := (· ∈ seen)) ?_ ?_)
  · exact fun l hl => (h.entries l hl).resolve_right List.not_mem_nil
  · exact fun l l' hl hedge => (h.followed l hl l' hedge).resolve_right List.not_mem_nil

/-- A label that has been seen before is dropped. -/
theorem drop (h : g.Seeking target seen (l :: rest)) (hseen : l ∈ seen) :
    g.Seeking target seen rest where
  found m hm := h.found m (List.mem_cons_of_mem l hm)
  entries m hm := by
    have := h.entries m hm
    grind
  followed m hm m' hedge := by
    have := h.followed m hm m' hedge
    grind
  missed := h.missed

/-- A label that has not been seen has its edges followed. -/
theorem follow (h : g.Seeking target seen (l :: rest)) (htarget : l ≠ target) :
    g.Seeking target (l :: seen) (rest ++ g.successors l) where
  found m hm := by
    rcases List.mem_append.1 hm with hm | hm
    · exact h.found m (List.mem_cons_of_mem l hm)
    · exact (h.found l List.mem_cons_self).edge (mem_successors.1 hm)
  entries m hm := by
    have := h.entries m hm
    grind
  followed m hm m' hedge := by
    rcases List.mem_cons.1 hm with rfl | hm
    · exact .inr (List.mem_append_right rest (mem_successors.2 hedge))
    · have := h.followed m hm m' hedge
      grind
  missed := by simpa [htarget.symm] using h.missed

end Seeking

/-- With enough rounds, the search ends with the target or with nothing waiting. -/
theorem seek_eq_true_iff {target : Label} {rounds : Nat} {seen queue : List Label}
    (h : g.Seeking target seen queue)
    (hrounds : queue.length + (g.unfollowed seen).length ≤ rounds) :
    g.seek target rounds seen queue = true ↔ g.Reachable target := by
  fun_induction seek g target rounds seen queue with
  | case1 seen queue =>
    obtain rfl := List.eq_nil_of_length_eq_zero (l := queue) (by omega)
    exact iff_of_false Bool.false_ne_true h.not_reachable
  | case2 => exact iff_of_false Bool.false_ne_true h.not_reachable
  | case3 rounds seen l rest htarget =>
    exact iff_of_true rfl (eq_of_beq htarget ▸ h.found l List.mem_cons_self)
  | case4 rounds seen l rest htarget hseen ih =>
    rw [List.length_cons] at hrounds
    exact ih (h.drop (List.contains_iff_mem.1 hseen)) (by omega)
  | case5 rounds seen l rest htarget hseen ih =>
    have hedges := length_successors_add_unfollowed (g := g) (mt List.contains_iff_mem.2 hseen)
    rw [List.length_cons] at hrounds
    refine ih (h.follow fun heq => htarget (beq_iff_eq.2 heq)) ?_
    rw [List.length_append]
    omega

/-- At the start everything that is reachable is behind the queue. -/
theorem Seeking.start (g : FlowGraph) (target : Label) : g.Seeking target [] g.entries where
  found _ hl := .of_mem_entries hl
  entries _ hl := .inr hl
  followed _ hl := absurd hl List.not_mem_nil
  missed := List.not_mem_nil

theorem seek_start_eq_true_iff {rounds : Nat} (h : g.rounds ≤ rounds) :
    g.seek l rounds [] g.entries = true ↔ g.Reachable l :=
  seek_eq_true_iff (.start g l)
    (Nat.le_trans (Nat.add_le_add_left (List.length_filter_le _ _) _) h)

/-- The search for one label finds it exactly if it is reachable. -/
theorem reaches_iff_reachable : g.reaches l = true ↔ g.Reachable l :=
  seek_start_eq_true_iff (Nat.le_refl _)

/-- The searches are over before the rounds are: more rounds change neither. -/
theorem rounds_suffice (g : FlowGraph) (more : Nat) :
    (g.spread (g.rounds + more) (g.entries.foldl Search.mark {})).seen = g.reachable ∧
      ∀ l, g.seek l (g.rounds + more) [] g.entries = g.reaches l := by
  constructor
  · rw [spread_add, reachable]
    have hdone := queue_spread_start_eq_nil (Nat.le_refl g.rounds)
    cases more <;> simp [spread, hdone]
  · intro l
    rw [Bool.eq_iff_iff, reaches_iff_reachable]
    exact seek_start_eq_true_iff (Nat.le_add_right _ _)

end FlowGraph

end TraceWeave
