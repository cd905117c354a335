import TraceWeave.Proofs.Machine.Bracketed
import TraceWeave.Proofs.Machine.Walks
import TraceWeave.Proofs.Weave.Malformed
import TraceWeave.Proofs.Weave.MarkedTests

/-!
# Activations of marked tests

An activation of a test executes the start marker first, then operations that mark nothing, then the
end marker, and then a return, and it stops earlier only by failing (`Run.Wraps`).  That is so on
every path: control never comes back to the entry, because jumps lead to instructions that were
there before; from each of them it comes to an end marker before it comes to a return; and it never
falls off the end.  `Plan.wraps_weaveTests` says so for every method that the test phase
instruments.
-/

namespace TraceWeave

/-- Operations up to the return of a test: none of them is a marker but the last before the
return, which marks the end. -/
def Closes (test : String) (ops : List Operation) : Prop :=
  ∃ inside value, (∀ op ∈ inside, op.isTestMarker = false ∧ op.isReturn = false) ∧
    ops = inside ++ [.probe (.testEnd test), .ret value]

/-- A run of the body of a test begins with the start marker and closes with the end marker right
before a return, without further markers; a run that fails does so as far as it gets. -/
structure Run.Wraps (run : Run) (b : Body) (test : String) : Prop where
  /-- What is executed before the method returns. -/
  returns : run.faults = false → ∃ ops, Closes test ops ∧
    run.ops b = .probe (.testStart test) :: ops
  /-- What is executed before the run stops, be it by a failure. -/
  stops : ∃ ops, Closes test ops ∧ run.ops b <+: .probe (.testStart test) :: ops

namespace Closes

variable {test : String} {ops : List Operation}

theorem finish (test : String) (value : Option Expr) :
    Closes test [.probe (.testEnd test), .ret value] :=
  ⟨[], value, nofun, rfl⟩

theorem cons {op : Operation} (hmarker : op.isTestMarker = false) (hreturn : op.isReturn = false)
    (h : Closes test ops) : Closes test (op :: ops) := by
  obtain ⟨inside, value, hinside, rfl⟩ := h
  exact ⟨op :: inside, value, List.forall_mem_cons.2 ⟨⟨hmarker, hreturn⟩, hinside⟩, rfl⟩

/-- The only marker is the end marker. -/
theorem filter_isTestMarker (h : Closes test ops) :
    ops.filter (·.isTestMarker) = [.probe (.testEnd test)] := by
  obtain ⟨inside, value, hinside, rfl⟩ := h
  rw [List.filter_append, List.filter_eq_nil_iff.2 fun op hop => by simp [(hinside op hop).1]]
  rfl

end Closes

/-- Of the markers, a run executes one of each in order, or fails before. -/
theorem Run.Wraps.markers {run : Run} {b : Body} {test : String} (h : run.Wraps b test) :
    (run.ops b).filter (·.isTestMarker) <+: [.probe (.testStart test), .probe (.testEnd test)] := by
  obtain ⟨ops, hops, hprefix⟩ := h.stops
  have := hprefix.filter (·.isTestMarker)
  rwa [List.filter_cons_of_pos rfl, hops.filter_isTestMarker] at this

namespace Body

variable {b : Body} {test : String} {position : Nat} {i : Instr} {labels : List Label}
  {fails : Bool}

/-- Where closed operations begin, either nothing is marked and closed operations follow, or the end
is marked and a return follows. -/
theorem closed_cases (hi : b.instrs[position]? = some i)
    (hclosed : Closed test (b.opsFrom position)) :
    (i.op.isTestMarker = false ∧ i.op.isReturn = false ∧
        (i.op.isTerminator = true ∨ b.opsFrom (position + 1) ≠ []) ∧
        Closed test (b.opsFrom (position + 1))) ∨
      i.op = .probe (.testEnd test) ∧
        ∃ j value, b.instrs[position + 1]? = some j ∧ j.op = .ret value := by
  obtain ⟨hlt, rfl⟩ := List.getElem?_eq_some_iff.1 hi
  have hops : b.opsFrom position = b.instrs[position].op :: b.opsFrom (position + 1) := by
    rw [opsFrom, List.drop_eq_getElem_cons hlt, List.map_cons, opsFrom]
  rw [hops] at hclosed
  generalize hrest : b.opsFrom (position + 1) = rest at hclosed ⊢
  generalize b.instrs[position].op = op at hclosed ⊢
  cases hclosed with
  | plain hreturn hmarker hnext hclosed => exact .inl ⟨hmarker, hreturn, hnext, hclosed⟩
  | finish value _ =>
    obtain ⟨j, hj, hret, -⟩ := exists_of_opsFrom_eq_cons hrest
    exact .inr ⟨rfl, j, value, hj, hret⟩

section

variable (hnodup : b.labels.Nodup)

include hnodup

/-- A walk from a return executes it, or stops before. -/
theorem Walks.opsOf_of_ret (h : b.Walks position labels fails) {value : Option Expr}
    (hi : b.instrs[position]? = some i) (hop : i.op = .ret value) :
    b.opsOf labels = [.ret value] ∨ b.opsOf labels = [] ∧ fails = true := by
  have hops : b.opsOf [i.label] = [.ret value] := hop ▸ opsOf_cons hnodup hi []
  cases h with
  | stuck => exact .inr ⟨rfl, rfl⟩
  | fallOff hend => exact absurd (hi.symm.trans hend) nofun
  | fail hj =>
    cases hi.symm.trans hj
    exact .inl hops
  | finish hj =>
    cases hi.symm.trans hj
    exact .inl hops
  | step hj hgoes =>
    cases hi.symm.trans hj
    rw [hop] at hgoes
    cases hgoes with
    | step hterminator => cases hterminator
    | jump htarget => cases htarget

/-- A walk from inside the body of a test closes it, or stops before. -/
theorem Walks.exists_closes (hb : b.MarksTest test) (h : b.Walks position labels fails)
    (hne : b.opsFrom position ≠ []) (hclosed : Closed test (b.opsFrom position)) :
    ∃ ops, Closes test ops ∧ b.opsOf labels <+: ops ∧ (fails = false → b.opsOf labels = ops) := by
  induction h with
  | stuck => exact ⟨_, .finish test none, List.nil_prefix, nofun⟩
  | fallOff hend =>
    rw [List.getElem?_eq_none_iff] at hend
    exact absurd (by rw [opsFrom, List.drop_of_length_le hend, List.map_nil]) hne
  | @fail position i hi =>
    have hops : b.opsOf [i.label] = [i.op] := opsOf_cons hnodup hi []
    rw [hops]
    rcases closed_cases hi hclosed with ⟨hmarker, hreturn, -⟩ | ⟨hop, -⟩
    · exact ⟨_, (Closes.finish test none).cons hmarker hreturn, ⟨_, rfl⟩, nofun⟩
    · exact ⟨_, .finish test none, ⟨_, by rw [hop]; rfl⟩, nofun⟩
  | finish hi hisReturn =>
    rcases closed_cases hi hclosed with ⟨-, hreturn, -⟩ | ⟨hop, -⟩
    · rw [hreturn] at hisReturn
      cases hisReturn
    · rw [hop] at hisReturn
      cases hisReturn
  | @step position position' frame i labels fails hi hgoes hwalk ih =>
    rw [opsOf_cons hnodup hi]
    rcases closed_cases hi hclosed with
      ⟨hmarker, hreturn, hnext, hclosed⟩ | ⟨hop, j, value, hj, hret⟩
    · -- Wherever control goes on, it is inside the test.
      have hinside : b.opsFrom position' ≠ [] ∧ Closed test (b.opsFrom position') := by
        cases hgoes with
        | step hterminator =>
          rw [hterminator] at hnext
          exact ⟨hnext.resolve_left (by simp), hclosed⟩
        | jump htarget hposition =>
          exact hb.jumps _ (mem_targets.2 ⟨i, List.mem_of_getElem? hi, htarget⟩) _ hposition
      obtain ⟨ops, hops, hprefix, heq⟩ := ih hinside.1 hinside.2
      exact ⟨_, hops.cons hmarker hreturn, List.cons_prefix_cons.2 ⟨rfl, hprefix⟩,
        fun hfails => by rw [heq hfails]⟩
    · rw [hop] at hgoes ⊢
      refine ⟨_, .finish test value, ?_⟩
      cases hgoes with
      | step _ =>
        rcases hwalk.opsOf_of_ret hnodup hj hret with hops | ⟨hops, rfl⟩
        · rw [hops]
          exact ⟨List.prefix_rfl, fun _ => rfl⟩
        · rw [hops]
          exact ⟨⟨_, rfl⟩, nofun⟩
      | jump htarget => cases htarget

/-- A walk from the entry of the body of a test wraps it. -/
theorem Walks.exists_wraps (hb : b.MarksTest test) (h : b.Walks 0 labels fails) :
    ∃ ops, Closes test ops ∧ b.opsOf labels <+: .probe (.testStart test) :: ops ∧
      (fails = false → b.opsOf labels = .probe (.testStart test) :: ops) := by
  obtain ⟨i, hi, hstart⟩ := hb.start
  have hops : ∀ labels, b.opsOf (i.label :: labels) = .probe (.testStart test) :: b.opsOf labels :=
    fun labels => hstart ▸ opsOf_cons hnodup hi labels
  cases h with
  | stuck => exact ⟨_, .finish test none, List.nil_prefix, nofun⟩
  | fallOff hend => exact absurd (hi.symm.trans hend) nofun
  | fail hj =>
    cases hi.symm.trans hj
    exact ⟨_, .finish test none, ⟨_, by rw [hops]; rfl⟩, nofun⟩
  | finish hj hreturn =>
    cases hi.symm.trans hj
    rw [hstart] at hreturn
    cases hreturn
  | step hj hgoes hrest =>
    cases hi.symm.trans hj
    rw [hstart] at hgoes
    cases hgoes with
    | step _ =>
      obtain ⟨ops, hcloses, hprefix, heq⟩ := hrest.exists_closes hnodup hb hb.inside_ne hb.inside
      rw [hops]
      exact ⟨ops, hcloses, List.cons_prefix_cons.2 ⟨rfl, hprefix⟩,
        fun hfails => by rw [heq hfails]⟩
    | jump htarget => cases htarget

/-- Every run of the body of a test from its entry wraps the test. -/
theorem MarksTest.wraps (hb : b.MarksTest test) (limit : Nat) (call : Call) (rounds : Nat)
    (frame : Frame) (s : MachineState) :
    (b.watch limit call rounds frame 0 s).Wraps b test := by
  obtain ⟨ops, hcloses, hprefix, heq⟩ :=
    (b.walks_watch limit call rounds frame 0 s).exists_wraps hnodup hb
  exact ⟨fun hfaults => ⟨ops, hcloses, heq hfaults⟩, ops, hcloses, hprefix⟩

end

end Body

namespace Plan

/-- A method that the test phase gives probes has the body of a marked test. -/
theorem marksTest_of_probes_ne_zero {plan : Plan} {p : Program} {s : Session} {k : Nat} {c : Class}
    {m m' : Method} {e : ReportEntry} (hm : p.methodList[k]? = some (c, m))
    (hm' : ((plan.weaveTests p s).1.classes.flatMap (·.methods))[k]? = some m')
    (he : (plan.weaveTests p s).2.2.entries[k]? = some e) (hprobes : e.probes ≠ 0)
    (hdefect : m.body.defect? = none) (hmarkers : ∀ i ∈ m.body.instrs, i.op.isTestMarker = false) :
    m'.body.labels.Nodup ∧ m'.body.MarksTest (m.signature c.name) := by
  rcases plan.weave_cases_at testWeavers s hm with
    ⟨f, -, -, -, hentry⟩ | ⟨outcomes, w, happly, hmethod, -, hentry⟩
  · obtain rfl := Option.some.inj (hentry.symm.trans he)
    exact absurd rfl hprobes
  · obtain rfl := Option.some.inj (hentry.symm.trans he)
    obtain rfl := Option.some.inj (hmethod.symm.trans hm')
    obtain ⟨outcome, w₁, _, hweave, hdefect', hlast, rfl⟩ := applyAll_cons_eq_ok.1 happly
    cases hlast
    have hnodup := Body.labels_nodup_of_defect? hdefect'
    have hweave := (onBody_eq_ok hweave).1
    refine ⟨hnodup, ?_⟩
    cases hskip : Lifecycle.skip? plan.settings (.of c m) with
    | some reason =>
      -- A method that is skipped gets no probes.
      simp only [Lifecycle.weave, hskip] at hweave
      obtain ⟨rfl, -⟩ := EStateM.Result.ok.inj hweave
      exact absurd rfl hprobes
    | none =>
      obtain ⟨u, hmark⟩ := (Lifecycle.weave_cases hweave).1 (Lifecycle.skip?_eq_none_iff.1 hskip)
      exact Lifecycle.marksTest hmark hnodup hdefect hmarkers

/-- Markers wrap every activation.  Take a consistent method without markers that the test phase
instruments.  Whatever the calls in it do, an activation of the woven method runs as the machine
does; one that returns has executed the start marker once and first, and the end marker once, with
nothing but the return after it; and one that fails has executed a part of that, so at most one
marker of each kind. -/
theorem wraps_weaveTests (plan : Plan) {p : Program} {s : Session} {k : Nat} {c : Class}
    {m m' : Method} {e : ReportEntry} (hm : p.methodList[k]? = some (c, m))
    (hm' : ((plan.weaveTests p s).1.classes.flatMap (·.methods))[k]? = some m')
    (he : (plan.weaveTests p s).2.2.entries[k]? = some e) (hprobes : e.probes ≠ 0)
    (hdefect : m.body.defect? = none) (hmarkers : ∀ i ∈ m.body.instrs, i.op.isTestMarker = false)
    (limit : Nat) (call : Call) (rounds : Nat) (frame : Frame) (state : MachineState) :
    let run := m'.body.watch limit call rounds frame 0 state
    run.result = m'.body.runFrom limit call rounds frame 0 state ∧
      run.Wraps m'.body (m.signature c.name) ∧
      (run.ops m'.body).filter (·.isTestMarker) <+:
        [.probe (.testStart (m.signature c.name)), .probe (.testEnd (m.signature c.name))] := by
  obtain ⟨hnodup, hmarks⟩ := marksTest_of_probes_ne_zero hm hm' he hprobes hdefect hmarkers
  have hwraps := hmarks.wraps hnodup limit call rounds frame state
  exact ⟨m'.body.result_watch limit call rounds frame 0 state, hwraps, hwraps.markers⟩

/-- A test that loops back to its first instruction until it is done, and then jumps to its
return. -/
def testRepeat : Method :=
  { name := "testRepeat"
    params := [⟨"done", .boolean⟩]
    returnType := .void
    body :=
      { locals := [⟨"done", .boolean⟩]
        instrs := [⟨⟨0⟩, 1, .branch (.var ⟨"done", .boolean⟩) ⟨3⟩⟩,
          ⟨⟨1⟩, 2, .assign (.var ⟨"done", .boolean⟩) (.value (.bool true))⟩, ⟨⟨2⟩, 3, .goto ⟨0⟩⟩,
          ⟨⟨3⟩, 4, .ret none⟩] } }

/-- The test with its markers. -/
def testRepeatMarked : Method :=
  { testRepeat with
    body :=
      { locals := [⟨"done", .boolean⟩]
        instrs := [⟨⟨5⟩, 0, .probe (.testStart (testRepeat.signature "Foo"))⟩,
          ⟨⟨0⟩, 1, .branch (.var ⟨"done", .boolean⟩) ⟨4⟩⟩,
          ⟨⟨1⟩, 2, .assign (.var ⟨"done", .boolean⟩) (.value (.bool true))⟩, ⟨⟨2⟩, 3, .goto ⟨0⟩⟩,
          ⟨⟨4⟩, 0, .probe (.testEnd (testRepeat.signature "Foo"))⟩, ⟨⟨3⟩, 4, .ret none⟩] } }

/-- The test goes through its loop, and the markers wrap it. -/
theorem wraps_weaveTests_testRepeat :
    (∀ limit call rounds frame state,
      (testRepeatMarked.body.watch limit call rounds frame 0 state).Wraps testRepeatMarked.body
        (testRepeat.signature "Foo")) ∧
    ∀ call, (testRepeatMarked.body.watch 9 call 10
      ⟨"Foo.testRepeat", .ofList [("done", .bool false)]⟩ 0 {}).labels =
        [⟨5⟩, ⟨0⟩, ⟨1⟩, ⟨2⟩, ⟨0⟩, ⟨4⟩, ⟨3⟩] := by
  refine ⟨fun limit call rounds frame state => ?_, fun call => rfl⟩
  have hmethod : (Program.mk [lone testRepeat]).methodList[0]? =
      some (lone testRepeat, testRepeat) := rfl
  have hwoven : ((weaveTests {} ⟨[lone testRepeat]⟩ ∅).1.classes.flatMap (·.methods))[0]? =
      some testRepeatMarked := rfl
  exact (wraps_weaveTests {} hmethod hwoven rfl (by decide) (by decide) (by decide) limit call
    rounds frame state).2.1

end Plan

end TraceWeave
