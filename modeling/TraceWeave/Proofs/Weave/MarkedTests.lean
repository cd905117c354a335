import TraceWeave.Proofs.Machine.TestRuns
import TraceWeave.Proofs.Weave.Edits
import TraceWeave.Proofs.Weave.Permits

/-!
# Programs with marked tests

The product phase adds no markers, and the test phase marks exactly the methods that
`Settings.marksTest` picks, so a program without probes that goes through both phases has the
markers of its tests and no others (`Plan.marksTests_weavePhases`).
-/

namespace TraceWeave

/-- Whether a method of a class gets test markers. -/
def Settings.marksTest (settings : Settings) (owner method : String) : Bool :=
  settings.testLifecycle && !settings.isInfrastructure owner &&
    method != Method.initializerName && settings.isTestMethod owner method

theorem Settings.marksTest_initializerName (settings : Settings) (owner : String) :
    settings.marksTest owner Method.initializerName = false := by
  simp [marksTest]

theorem Lifecycle.skip?_eq_none_iff {settings : Settings} {target : MethodTarget} :
    skip? settings target = none ↔ settings.marksTest target.owner target.method = true := by
  unfold skip? Settings.marksTest
  cases settings.isInfrastructure target.owner <;>
    cases h : target.method == Method.initializerName <;> cases settings.testLifecycle <;>
    cases settings.isTestMethod target.owner target.method <;> simp_all

/-- A method either gets its markers or stays as it is. -/
theorem Lifecycle.weave_cases {settings : Settings} {target : MethodTarget} {b b' : Body}
    {o : Outcome} (h : weave settings target b = .ok o b') :
    (settings.marksTest target.owner target.method = true →
        ∃ u, mark target.signature b = .ok u b') ∧
      (settings.marksTest target.owner target.method = false → b' = b) := by
  rcases weave_eq_ok h with ⟨hskip, rfl⟩ | ⟨hskip, hmark⟩
  · refine ⟨fun htest => ?_, fun _ => rfl⟩
    rw [skip?_eq_none_iff.2 htest] at hskip
    cases hskip
  · refine ⟨fun _ => hmark, fun htest => ?_⟩
    rw [skip?_eq_none_iff.1 hskip] at htest
    cases htest

/-- A program without probes. -/
def Program.ProbeFree (p : Program) : Prop :=
  ∀ c ∈ p.classes, ∀ m ∈ c.methods, ∀ i ∈ m.body.instrs, i.op.isProbe = false

namespace Plan

/-- Weaves a program in the product phase and then in the test phase of a session, with the report
of both. -/
def weavePhases (plan : Plan) (p : Program) (s : Session) : Program × Report :=
  let (p, s, product) := plan.weaveProduct p s
  let (p, _, tests) := plan.weaveTests p s
  (p, product ++ tests)

theorem isClean_weavePhases {plan : Plan} {p : Program} {s : Session}
    (h : (plan.weavePhases p s).2.isClean) :
    (plan.weaveProduct p s).2.2.isClean ∧
      (plan.weaveTests (plan.weaveProduct p s).1 (plan.weaveProduct p s).2.1).2.2.isClean := by
  have hfailures : (plan.weavePhases p s).2.failures = (plan.weaveProduct p s).2.2.failures ++
      (plan.weaveTests (plan.weaveProduct p s).1 (plan.weaveProduct p s).2.1).2.2.failures := by
    unfold Report.failures
    rw [← List.filterMap_append]
    rfl
  rw [Report.isClean, hfailures, List.isEmpty_iff, List.append_eq_nil_iff] at h
  exact ⟨List.isEmpty_iff.2 h.1, List.isEmpty_iff.2 h.2⟩

end Plan

/-! ## Corresponding methods -/

/-- A method of corresponding classes comes from one in the other class of the same name. -/
theorem exists_of_corresponds {R : Class → Method → Method → Prop} {classes classes' : List Class}
    (h : List.Forall₂ (Class.Corresponds R) classes classes') {c' : Class} (hc' : c' ∈ classes')
    {m' : Method} (hm' : m' ∈ c'.methods) :
    ∃ c ∈ classes, c'.name = c.name ∧ ∃ m ∈ c.methods, R c m m' := by
  obtain ⟨c, hc, heq, hmethods⟩ := exists_of_mem_forall₂ h hc'
  obtain ⟨m, hm, hR⟩ := exists_of_mem_forall₂ hmethods hm'
  exact ⟨c, hc, by rw [heq], m, hm, hR⟩

/-! ## Markers -/

/-- Everything but markers. -/
def Permit.unmarked (file : String) : Permit file where
  op o := o.isTestMarker = false
  expr _ := True
  var _ := True
  retarget f h := (Operation.isTestMarker_retarget f _).trans h
  branch_iff := iff_of_true rfl trivial
  var_iff := Iff.rfl
  of_unary _ := trivial
  of_binary _ := ⟨trivial, trivial⟩
  unaryOver _ := trivial
  binary _ _ := trivial
  temporary _ := trivial
  assign _ _ := rfl
  capture _ := rfl
  condition _ _ := rfl
  lineReached := rfl
  branchReached := rfl
  fieldRead _ _ := rfl

namespace Plan

variable {plan : Plan} {p : Program} {s : Session}

/-- After the product phase, bodies are consistent and have no markers. -/
theorem unmarked_weaveProduct (hfree : p.ProbeFree) (hclean : (plan.weaveProduct p s).2.2.isClean) :
    List.Forall₂ (Class.Corresponds fun _ m m' => m' = { m with body := m'.body } ∧
      m'.body.defect? = none ∧ ∀ i ∈ m'.body.instrs, i.op.isTestMarker = false)
      p.classes (plan.weaveProduct p s).1.classes := by
  refine weave_corresponds_of_isClean hclean fun c hc m hm s' outcomes w happly => ⟨rfl, ?_, ?_⟩
  · obtain ⟨_, w₁, _, -, -, hrest, -⟩ := applyAll_cons_eq_ok.1 happly
    obtain ⟨_, w₂, _, -, hdefect, hlast, -⟩ := applyAll_cons_eq_ok.1 hrest
    cases hlast
    exact hdefect
  · refine (Permit.unmarked c.sourcePath).applyAll rfl (fun h => absurd h (by decide)) happly
      fun i hi => ?_
    have hprobe := hfree c hc m hm i hi
    revert hprobe
    cases i.op <;> first | exact fun _ => rfl | exact nofun

/-- The test phase marks the tests of a program without markers. -/
theorem marked_weaveTests
    (hp : ∀ c ∈ p.classes, ∀ m ∈ c.methods,
      m.body.defect? = none ∧ ∀ i ∈ m.body.instrs, i.op.isTestMarker = false)
    (hclean : (plan.weaveTests p s).2.2.isClean) :
    List.Forall₂ (Class.Corresponds fun c m m' => m' = { m with body := m'.body } ∧
      (plan.settings.marksTest c.name m.name = true → m'.body.MarksTest (m.signature c.name)) ∧
      (plan.settings.marksTest c.name m.name = false →
        ∀ i ∈ m'.body.instrs, i.op.isTestMarker = false))
      p.classes (plan.weaveTests p s).1.classes := by
  refine weave_corresponds_of_isClean hclean fun c hc m hm s' outcomes w happly => ?_
  obtain ⟨hdefect, hunmarked⟩ := hp c hc m hm
  obtain ⟨_, w₁, _, hweave, hdefect', hlast, -⟩ := applyAll_cons_eq_ok.1 happly
  cases hlast
  have hcases := Lifecycle.weave_cases (onBody_eq_ok hweave).1
  refine ⟨rfl, fun htest => ?_, fun htest => ?_⟩
  · obtain ⟨u, hmark⟩ := hcases.1 htest
    exact Lifecycle.marksTest hmark (Body.defect?_eq_none_iff.1 hdefect').1 hdefect hunmarked
  · rw [hcases.2 htest]
    exact hunmarked

/-- After both phases, exactly the tests are marked, and names stay. -/
theorem marksTests_weavePhases (hfree : p.ProbeFree) (hclean : (plan.weavePhases p s).2.isClean)
    (natives : Natives) (limit : Nat) :
    Setup.MarksTests ⟨(plan.weavePhases p s).1, natives, limit⟩ plan.settings.marksTest ∧
      ∀ c' ∈ (plan.weavePhases p s).1.classes, ∀ m' ∈ c'.methods,
        ∃ c ∈ p.classes, ∃ m ∈ c.methods, c'.name = c.name ∧ m'.name = m.name ∧
          m'.signature c'.name = m.signature c.name := by
  obtain ⟨hproduct, htests⟩ := isClean_weavePhases hclean
  have hfirst := unmarked_weaveProduct hfree hproduct
  have hsecond := marked_weaveTests (fun c' hc' m' hm' => by
    obtain ⟨_, _, _, _, _, _, hdefect, hunmarked⟩ := exists_of_corresponds hfirst hc' hm'
    exact ⟨hdefect, hunmarked⟩) htests
  have hboth : ∀ c' ∈ (plan.weavePhases p s).1.classes, ∀ m' ∈ c'.methods,
      (plan.settings.marksTest c'.name m'.name = true →
        m'.body.MarksTest (m'.signature c'.name)) ∧
      (plan.settings.marksTest c'.name m'.name = false →
        ∀ i ∈ m'.body.instrs, i.op.isTestMarker = false) ∧
      ∃ c ∈ p.classes, ∃ m ∈ c.methods, c'.name = c.name ∧ m'.name = m.name ∧
        m'.signature c'.name = m.signature c.name := by
    intro c' hc' m' hm'
    obtain ⟨c₁, hc₁, hname₁, m₁, hm₁, heq₁, hmarked, hunmarked⟩ :=
      exists_of_corresponds hsecond hc' hm'
    obtain ⟨c, hc, hname, m, hm, heq, -, -⟩ := exists_of_corresponds hfirst hc₁ hm₁
    have hmethod : m'.name = m₁.name ∧ m'.signature c'.name = m₁.signature c₁.name := by
      rw [hname₁, heq₁]
      exact ⟨rfl, rfl⟩
    have hmethod₁ : m₁.name = m.name ∧ m₁.signature c₁.name = m.signature c.name := by
      rw [hname, heq]
      exact ⟨rfl, rfl⟩
    rw [hname₁, hmethod.1, ← hname₁, hmethod.2]
    exact ⟨hname₁ ▸ hmarked, hname₁ ▸ hunmarked, c, hc, m, hm, hname₁.trans hname, hmethod₁.1,
      hmethod₁.2⟩
  exact ⟨⟨fun c hc m hm => (hboth c hc m hm).1, fun c hc m hm => (hboth c hc m hm).2.1⟩,
    fun c hc m hm => (hboth c hc m hm).2.2⟩

end Plan

end TraceWeave
