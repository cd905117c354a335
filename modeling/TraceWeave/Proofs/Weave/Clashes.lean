import TraceWeave.Proofs.Machine.Evaluation
import TraceWeave.Proofs.Weave.EditClosed
import TraceWeave.Proofs.Weave.ProductPhase

/-!
# When temporaries clash with other variables

A temporary gets a name that is not declared.  The names of parameters need not be declared, nor do
those of the variables that instructions use, so a temporary may well get one of these, and its
assignment then overwrites the variable.

Each edit of a weaver that declares a temporary inserts one assignment to it, and no other edit
inserts an assignment (`Body.gainsTemporaries_editClosed`).  So what is inserted assigns to the new
temporaries, once to each, and their names are the spare ones in order.  `Plan.clash_iff` puts this
together: temporaries clash neither with one another nor with declared variables, but with any other
variable of the method whose name is among the first spare ones.
-/

namespace TraceWeave

/-- The names of the variables of a method: of its parameters, and of what its instructions read and
write. -/
def Method.variables (m : Method) : List String :=
  m.params.map (·.name) ++ m.body.instrs.flatMap (·.op.names)

/-- What an operation assigns to. -/
def Operation.place? : Operation → Option Place
  | .assign target _ => some target
  | _ => none

namespace Instr

/-- The label of an instruction, with what the instruction assigns to. -/
def entry (i : Instr) : Label × Option Place := (i.label, i.op.place?)

theorem entry_redirect (old new : Label) (i : Instr) : (i.redirect old new).entry = i.entry := by
  obtain ⟨label, line, op⟩ := i
  cases op <;> rfl

theorem entry_setCondition (i : Instr) (condition : Expr) :
    (i.setCondition condition).entry = i.entry := by
  obtain ⟨label, line, op⟩ := i
  cases op <;> rfl

end Instr

namespace Body

/-- The labels of the instructions, with what these assign to. -/
def entries (b : Body) : List (Label × Option Place) := b.instrs.map Instr.entry

theorem labels_eq_map_entries (b : Body) : b.labels = b.entries.map (·.1) := by
  rw [entries, List.map_map]
  rfl

theorem entries_setCondition (b : Body) (label : Label) (condition : Expr) :
    (b.setCondition label condition).entries = b.entries :=
  b.setCondition_map (fun i => i.entry_setCondition condition) label

theorem insertBefore?_entries {b b' : Body} {anchor : Label} {op : Operation}
    (h : b.insertBefore? anchor op = some b') :
    b'.entries.Perm ((b.nextLabel, op.place?) :: b.entries) :=
  (insertBefore?_map (fun i => i.entry_redirect _ _) h).2

/-- The second body has further instructions and declares temporaries, and the further instructions
assign to these, once to each, and to nothing else. -/
def GainsTemporaries (b b' : Body) : Prop :=
  ∃ temps entries, b'.locals = b.locals ++ temps ∧ FreshAfter b.locals temps ∧
    b'.entries.Perm (b.entries ++ entries) ∧ entries.filterMap (·.2) = temps.map .var

namespace GainsTemporaries

variable {b b₁ b₂ : Body}

theorem of_same (hlocals : b₁.locals = b.locals) (hentries : b₁.entries = b.entries) :
    b.GainsTemporaries b₁ :=
  ⟨[], [], by simp [hlocals], trivial, by simp [hentries], rfl⟩

/-- An instruction that assigns to nothing. -/
theorem of_perm {l : Label} (hlocals : b₁.locals = b.locals)
    (hentries : b₁.entries.Perm ((l, none) :: b.entries)) : b.GainsTemporaries b₁ :=
  ⟨[], [(l, none)], by simp [hlocals], trivial,
    hentries.trans (List.perm_append_singleton _ _).symm, rfl⟩

theorem trans (h : b.GainsTemporaries b₁) (h' : b₁.GainsTemporaries b₂) :
    b.GainsTemporaries b₂ := by
  obtain ⟨temps, entries, hlocals, hfresh, hperm, hplaces⟩ := h
  obtain ⟨temps', entries', hlocals', hfresh', hperm', hplaces'⟩ := h'
  refine ⟨temps ++ temps', entries ++ entries', ?_, ?_, ?_, ?_⟩
  · rw [hlocals', hlocals, List.append_assoc]
  · exact hfresh.append (hlocals ▸ hfresh')
  · rw [← List.append_assoc]
    exact hperm'.trans (hperm.append_right _)
  · rw [List.filterMap_append, hplaces, hplaces', List.map_append]

/-- A fresh temporary, and an instruction that assigns to it. -/
theorem hold {anchor : Label} {value : Expr}
    (h : (b.addTemporary value.ty).insertBefore? anchor
      (.assign (.var (b.freshLocal value.ty)) value) = some b₁) : b.GainsTemporaries b₁ :=
  ⟨[b.freshLocal value.ty], [(b.nextLabel, some (.var (b.freshLocal value.ty)))],
    insertBefore?_locals h, ⟨rfl, trivial⟩,
    (insertBefore?_entries h).trans (List.perm_append_singleton _ _).symm, rfl⟩

end GainsTemporaries

/-- Every edit of a weaver that inserts an assignment declares the temporary that it assigns to. -/
theorem gainsTemporaries_editClosed : EditClosed GainsTemporaries where
  refl _ := .of_same rfl rfl
  trans := .trans
  insertProbe h := .of_perm (insertBefore?_locals h) (insertBefore?_entries h)
  insertEntry := .of_perm rfl (List.Perm.refl _)
  pushProbe := .of_perm rfl (by
    rw [entries, push, List.map_append]
    exact List.perm_append_singleton _ _)
  pushReturn := .of_perm rfl (by
    rw [entries, push, List.map_append]
    exact List.perm_append_singleton _ _)
  setCondition := .of_same (setCondition_locals _ _ _) (entries_setCondition _ _ _)
  hold := .hold

/-- The instructions of a body that another one does not have. -/
def inserted (b b' : Body) : List Instr := b'.instrs.filter fun i => i.label ∉ b.labels

/-- Where labels are distinct, the further instructions are those with new labels. -/
theorem filterMap_inserted {b b' : Body} (hnodup : b'.labels.Nodup)
    {entries : List (Label × Option Place)} (h : b'.entries.Perm (b.entries ++ entries)) :
    ((b.inserted b').filterMap (·.op.place?)).Perm (entries.filterMap (·.2)) := by
  have hdisjoint : ∀ e ∈ entries, e.1 ∉ b.labels := by
    have hlabels : b'.labels.Perm (b.labels ++ entries.map (·.1)) := by
      rw [labels_eq_map_entries, labels_eq_map_entries, ← List.map_append]
      exact h.map _
    have hdistinct := (List.nodup_append'.1 (hlabels.nodup_iff.1 hnodup)).2.2
    exact fun e he hl => hdistinct hl (List.mem_map_of_mem he)
  have hold : b.entries.filter (fun e => e.1 ∉ b.labels) = [] := by
    rw [List.filter_eq_nil_iff]
    intro e he
    have hl : e.1 ∈ b.labels := labels_eq_map_entries b ▸ List.mem_map_of_mem he
    simpa using hl
  have hnew : entries.filter (fun e => e.1 ∉ b.labels) = entries :=
    List.filter_eq_self.2 fun e he => decide_eq_true (hdisjoint e he)
  have hinserted : (b.inserted b').filterMap (·.op.place?) =
      (b'.entries.filter fun e => e.1 ∉ b.labels).filterMap (·.2) := by
    rw [Body.entries, List.filter_map, List.filterMap_map]
    rfl
  have hfilter := h.filter fun e => e.1 ∉ b.labels
  rw [List.filter_append, hold, hnew, List.nil_append] at hfilter
  exact hinserted ▸ hfilter.filterMap _

end Body

namespace Plan

/-- The temporaries that the product phase declares in a method are distinct and have no name that
was declared, and what it inserts assigns to them, once to each, and to nothing else.  Their names
are the spare ones: as many as there are temporaries, in order.  So none of them is the name of a
variable of the method just if no such name is among the first spare ones, which is so if every such
name that begins like that of a temporary is declared. -/
theorem clash_iff {plan : Plan} {c : Class} {m m' : Method} {s s' : Session}
    {outcomes : List Outcome}
    (h : plan.weaveMethod productWeavers c m s = (m', s', .processed c.name outcomes)) :
    ∃ temps : List Local, m'.body.locals = m.body.locals ++ temps ∧
      ((m.body.inserted m'.body).filterMap (·.op.place?)).Perm (temps.map .var) ∧
      (temps.map (·.name)).Nodup ∧
      (∀ n ∈ temps.map (·.name), n ∉ m.body.locals.map (·.name)) ∧
      (∀ n, n ∈ temps.map (·.name) ↔ ∃ k, Body.Spare m.body.locals k ∧
        Nat.count (Body.Spare m.body.locals) k < temps.length ∧ Body.temporaryName k = n) ∧
      ((∀ n ∈ m.variables, n ∉ temps.map (·.name)) ↔
        ∀ k, Body.Spare m.body.locals k → Body.temporaryName k ∈ m.variables →
          temps.length ≤ Nat.count (Body.Spare m.body.locals) k) ∧
      ((∀ n ∈ m.variables, Declares m.body.locals n) →
        ∀ n ∈ m.variables, n ∉ temps.map (·.name)) := by
  unfold weaveMethod at h
  split at h
  · cases h
  · next outcomes w happly =>
    cases h
    obtain ⟨temps, entries, hlocals, hfresh, hentries, hplaces⟩ :=
      Body.gainsTemporaries_editClosed.applyAll happly
    obtain ⟨_, _, _, _, hphase⟩ := exists_productPhase happly
    have hassigned := Body.filterMap_inserted hphase.nodup' hentries
    have hnames : ∀ n, n ∈ temps.map (·.name) ↔ _ := fun n => hfresh.mem_names_iff
    refine ⟨temps, hlocals, hplaces ▸ hassigned, hfresh.nodup.1, hfresh.nodup.2, hnames, ?_,
      fun hdeclares n hn => hfresh.not_mem_of_declares (hdeclares n hn)⟩
    simp only [hnames]
    constructor
    · intro hnone k hk hvariable
      by_contra hlt
      exact hnone _ hvariable ⟨k, hk, Nat.lt_of_not_le hlt, rfl⟩
    · rintro hall _ hvariable ⟨k, hk, hlt, rfl⟩
      exact absurd (hall k hk hvariable) (Nat.not_le.2 hlt)

/-- A method with a parameter that is named like a temporary and is not declared.  A branch on line 5
compares it with a constant, and then it is returned. -/
def shadowing : Method :=
  { name := "m", params := [⟨"__autogen_0", .boolean⟩], returnType := .boolean
    body := { instrs := [
      ⟨⟨0⟩, 5, .branch (.binary .eq (.var ⟨"__autogen_0", .boolean⟩) (.value (.bool true))) ⟨1⟩⟩,
      ⟨⟨1⟩, 6, .ret (some (.var ⟨"__autogen_0", .boolean⟩))⟩] } }

/-- The temporary of the constant gets the name of the parameter. -/
theorem clash_shadowing :
    ∃ m' s', requestingFive.weaveMethod productWeavers (lone shadowing) shadowing ∅ =
        (m', s', .processed "Foo" [.woven 5, .unchanged]) ∧
      (shadowing.body.inserted m'.body).filterMap (·.op.place?) =
        [.var ⟨"__autogen_0", .boolean⟩] ∧
      ¬ ∀ n ∈ shadowing.variables, n ∉ m'.body.locals.map (·.name) := by
  have hentry : (requestingFive.weaveMethod productWeavers (lone shadowing) shadowing ∅).2.2 =
    .processed "Foo" [.woven 5, .unchanged] := by decide +kernel
  have hlocals : (requestingFive.weaveMethod productWeavers (lone shadowing) shadowing
    ∅).1.body.locals = [⟨"__autogen_0", .boolean⟩] := by decide +kernel
  generalize hresult : requestingFive.weaveMethod productWeavers (lone shadowing) shadowing ∅ =
    result at hentry hlocals ⊢
  obtain ⟨m', s', entry⟩ := result
  obtain rfl : entry = _ := hentry
  obtain ⟨temps, htemps, hassigned, -, -, -, hclash, -⟩ := clash_iff hresult
  obtain rfl : temps = [⟨"__autogen_0", .boolean⟩] := htemps.symm.trans hlocals
  rw [List.map_singleton, List.perm_singleton] at hassigned
  refine ⟨m', s', rfl, hassigned, fun hnone => ?_⟩
  rw [show m'.body.locals = _ from hlocals] at hnone
  have hle := hclash.1 hnone 0 (by decide) (by decide)
  exact absurd hle (by decide)

end Plan

end TraceWeave
