import TraceWeave.Proofs.Body.Consistency
import TraceWeave.Proofs.Flow.Reachability

/-!
# Graphs seen through inserted labels

A graph may have labels besides some old ones.  `FlowGraph.LeadsTo` passes over the others, and
`FlowGraph.ContractsTo` says that a graph is another one once they are passed over: it has the same
entries and every old label has the same successors.  Then the same old labels are reachable
(`ContractsTo.mem_reachable_iff`).

In a body whose other instructions do not jump, and end the method only where no old instruction
comes after them, every instruction leads to the old one that comes next
(`Body.leadsTo_iff_nextOld?`).
-/

namespace TraceWeave

namespace FlowGraph

/-- The graph leads from a label to an old one, past labels that are not old. -/
inductive LeadsTo (g : FlowGraph) (old : List Label) : Label → Label → Prop
  | here {l : Label} (hold : l ∈ old) : LeadsTo g old l l
  | past {l m l' : Label} (hnew : l ∉ old) (hedge : g.Edge l m) (hrest : LeadsTo g old m l') :
      LeadsTo g old l l'

/-- When labels that are not old are passed over, the first graph has the entries and the successors
that the second one has. -/
structure ContractsTo (g' g : FlowGraph) (old : List Label) : Prop where
  entries : ∀ l, (∃ e ∈ g'.entries, g'.LeadsTo old e l) ↔ l ∈ g.entries
  successors : ∀ l ∈ old, ∀ l', (∃ m ∈ g'.successors l, g'.LeadsTo old m l') ↔ l' ∈ g.successors l

variable {g g' : FlowGraph} {old : List Label} {l l' : Label}

theorem LeadsTo.mem (h : g.LeadsTo old l l') : l' ∈ old := by
  induction h with
  | here hold => exact hold
  | past _ _ _ ih => exact ih

theorem LeadsTo.path (h : g.LeadsTo old l l') : Relation.ReflTransGen g.Edge l l' := by
  induction h with
  | here _ => exact .refl
  | past _ hedge _ ih => exact .head hedge ih

/-- The same old labels are reachable. -/
theorem ContractsTo.mem_reachable_iff (h : g'.ContractsTo g old) (hl : l ∈ old) :
    l ∈ g'.reachable ↔ l ∈ g.reachable := by
  rw [FlowGraph.mem_reachable_iff, FlowGraph.mem_reachable_iff]
  constructor
  · rintro ⟨e, he, hpath⟩
    -- Whatever is passed over on the way leads to old labels that are reachable.
    have hleads : ∀ l', g'.LeadsTo old l l' →
        ∃ e ∈ g.entries, Relation.ReflTransGen g.Edge e l' := by
      clear hl
      induction hpath with
      | refl => exact fun l' hl' => ⟨l', (h.entries l').1 ⟨e, he, hl'⟩, .refl⟩
      | @tail m m' _ hedge ih =>
        intro l' hl'
        by_cases hm : m ∈ old
        · obtain ⟨e', he', hpath'⟩ := ih m (.here hm)
          have hsuccessor := (h.successors m hm l').1 ⟨m', mem_successors.2 hedge, hl'⟩
          exact ⟨e', he', hpath'.tail (mem_successors.1 hsuccessor)⟩
        · exact ih l' (.past hm hedge hl')
    exact hleads l (.here hl)
  · rintro ⟨e, he, hpath⟩
    have hfound : l ∈ old ∧ ∃ e' ∈ g'.entries, Relation.ReflTransGen g'.Edge e' l := by
      clear hl
      induction hpath with
      | refl =>
        obtain ⟨e', he', hleads⟩ := (h.entries e).2 he
        exact ⟨hleads.mem, e', he', hleads.path⟩
      | @tail m m' _ hedge ih =>
        obtain ⟨hm, e', he', hpath'⟩ := ih
        obtain ⟨n, hn, hleads⟩ := (h.successors m hm m').2 (mem_successors.2 hedge)
        exact ⟨hleads.mem, e', he', (hpath'.tail (mem_successors.1 hn)).trans hleads.path⟩
    exact hfound.2

end FlowGraph

namespace Body

variable {b : Body} {old : List Label}

/-- The label of the first old instruction from a position on. -/
def nextOld? (b : Body) (old : List Label) (k : Nat) : Option Label :=
  ((b.instrs.drop k).find? fun i => i.label ∈ old).map (·.label)

theorem nextOld?_of_mem {k : Nat} {i : Instr} (hi : b.instrs[k]? = some i) (hold : i.label ∈ old) :
    b.nextOld? old k = some i.label := by
  rw [nextOld?, List.drop_eq_getElem?_toList_append, hi]
  simp [hold]

theorem nextOld?_of_not_mem {k : Nat} {i : Instr} (hi : b.instrs[k]? = some i)
    (hnew : i.label ∉ old) : b.nextOld? old k = b.nextOld? old (k + 1) := by
  rw [nextOld?, List.drop_eq_getElem?_toList_append, hi]
  simp [hnew, nextOld?]

/-- Instructions that are not old do not jump, and one that ends the method has no old instruction
after it. -/
def PassesOver (b : Body) (old : List Label) : Prop :=
  ∀ k i, b.instrs[k]? = some i → i.label ∉ old →
    i.op.target? = none ∧ (i.op.isTerminator = true → b.nextOld? old (k + 1) = none)

theorem edge_iff_goesTo (hnodup : b.labels.Nodup) {k : Nat} {i : Instr}
    (hi : b.instrs[k]? = some i) {l' : Label} :
    (FlowGraph.ofBody b).Edge i.label l' ↔ FlowGraph.GoesTo b.instrs k i l' := by
  rw [FlowGraph.edge_ofBody_iff]
  constructor
  · rintro ⟨k', i', hi', hlabel, hgoes⟩
    obtain rfl := eq_of_getElem?_eq_some hnodup (getElem?_labels hi)
      (hlabel ▸ getElem?_labels hi')
    obtain rfl : i' = i := Option.some.inj (hi'.symm.trans hi)
    exact hgoes
  · exact fun hgoes => ⟨k, i, hi, rfl, hgoes⟩

/-- An instruction leads to the old one that comes next. -/
theorem leadsTo_iff_nextOld? (hnodup : b.labels.Nodup) (hpasses : b.PassesOver old) {k : Nat}
    {i : Instr} (hi : b.instrs[k]? = some i) {l' : Label} :
    (FlowGraph.ofBody b).LeadsTo old i.label l' ↔ b.nextOld? old k = some l' := by
  constructor
  · intro h
    generalize hl : i.label = l at h
    induction h generalizing k i with
    | here hold =>
      subst hl
      exact nextOld?_of_mem hi hold
    | past hnew hedge _ ih =>
      subst hl
      rcases (edge_iff_goesTo hnodup hi).1 hedge with htarget | ⟨-, j, hj, hjlabel⟩
      · rw [(hpasses _ _ hi hnew).1] at htarget
        cases htarget
      · rw [nextOld?_of_not_mem hi hnew]
        exact ih hj hjlabel
  · -- The induction is on what remains of the body.
    intro h
    obtain ⟨n, hn⟩ : ∃ n, n = b.instrs.length - k := ⟨_, rfl⟩
    induction n generalizing k i with
    | zero =>
      have := (List.getElem?_eq_some_iff.1 hi).1
      omega
    | succ n ih =>
      by_cases hold : i.label ∈ old
      · rw [nextOld?_of_mem hi hold] at h
        cases h
        exact .here hold
      · obtain ⟨-, hterminator⟩ := hpasses k i hi hold
        rw [nextOld?_of_not_mem hi hold] at h
        have hgoes : i.op.isTerminator = false := by
          by_contra hend
          rw [hterminator (by simpa using hend)] at h
          cases h
        cases hj : b.instrs[k + 1]? with
        | none =>
          rw [nextOld?, List.drop_eq_nil_of_le (List.getElem?_eq_none_iff.1 hj)] at h
          cases h
        | some j =>
          have hedge : (FlowGraph.ofBody b).Edge i.label j.label :=
            (edge_iff_goesTo hnodup hi).2 (.inr ⟨hgoes, j, hj, rfl⟩)
          exact .past hold hedge (ih hj h (by omega))

/-- From a position on, control comes to the old instruction that comes next. -/
theorem exists_leadsTo_iff (hnodup : b.labels.Nodup) (hpasses : b.PassesOver old) (k : Nat)
    (l' : Label) :
    (∃ i, b.instrs[k]? = some i ∧ (FlowGraph.ofBody b).LeadsTo old i.label l') ↔
      b.nextOld? old k = some l' := by
  cases hi : b.instrs[k]? with
  | none => simp [nextOld?, List.drop_eq_nil_of_le (List.getElem?_eq_none_iff.1 hi)]
  | some i => simp [leadsTo_iff_nextOld? hnodup hpasses hi]

end Body

end TraceWeave
