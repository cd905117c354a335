import TraceWeave.Proofs.Weave.LineKeys
import TraceWeave.Proofs.Weave.ProbeCounts
import TraceWeave.Proofs.Weave.Totals

/-!
# Reasons of skipped methods

A report counts skipped methods and it counts reasons.  A method is skipped once, but every weaver
that leaves it alone adds its reason.  The two weavers of the product phase decide alike, so in that
phase each skipped method stands twice under its reason; in the test phase, which has one weaver, it
stands there once (`PhaseRun.skipReasons_joined`).

Which methods are skipped, and why, is said without looking at the outcomes: `PhaseRun.reasons` has
one reason for each method that a phase leaves alone.
-/

namespace TraceWeave

open ReportEntry

/-- A phase of weaving. -/
inductive Phase where
  /-- Line, condition and field probes in product code. -/
  | product
  /-- Markers around tests. -/
  | tests
deriving DecidableEq

namespace Phase

/-- The weavers of a phase. -/
def weavers : Phase → List Weaver
  | .product => Plan.productWeavers
  | .tests => Plan.testWeavers

/-- Why a phase leaves a method alone, if it does. -/
def skip? : Phase → Settings → MethodTarget → Option SkipReason
  | .product => productSkip?
  | .tests => Lifecycle.skip?

/-- Why a phase skips a method.  A method with an inconsistent body is rolled back instead. -/
def reason? (phase : Phase) (settings : Settings) (c : Class) (m : Method) : Option SkipReason :=
  if m.body.defect?.isSome then none else phase.skip? settings (.of c m)

end Phase

/-- A run of a phase on a program, from a session on.  Where one run follows another, the session is
the one that the other left. -/
structure PhaseRun where
  /-- What is to be woven. -/
  plan : Plan
  /-- The phase. -/
  phase : Phase
  /-- The program. -/
  program : Program
  /-- The session. -/
  session : Session

namespace PhaseRun

/-- The report of a run. -/
def report (run : PhaseRun) : Report :=
  match run.phase with
  | .product => (run.plan.weaveProduct run.program run.session).2.2
  | .tests => (run.plan.weaveTests run.program run.session).2.2

/-- Why methods are skipped: one reason for each skipped method. -/
def reasons (run : PhaseRun) : List SkipReason :=
  run.program.methodList.filterMap fun e => run.phase.reason? run.plan.settings e.1 e.2

/-- The reports of several runs, joined one after another. -/
def joined (runs : List PhaseRun) : Report := runs.foldl (fun report run => report ++ run.report) ∅

/-- Why methods are skipped in the runs of a phase. -/
def reasonsIn (phase : Phase) (runs : List PhaseRun) : List SkipReason :=
  (runs.filter fun run => run.phase = phase).flatMap (·.reasons)

end PhaseRun

/-! ## The outcomes of a method -/

namespace Phase

variable {phase : Phase} {weaver : Weaver} {plan : Plan} {target : MethodTarget}

/-- All weavers of a phase leave a method alone for the same reason. -/
theorem apply_eq_skipped (hweaver : weaver ∈ phase.weavers) {reason : SkipReason}
    (hskip : phase.skip? plan.settings target = some reason) (w : Workpiece) :
    plan.apply weaver target w = .ok (.skipped reason) w := by
  cases phase with
  | product =>
    have hproduct : productSkip? plan.settings target = some reason := hskip
    simp only [weavers, Plan.productWeavers, List.mem_cons, List.not_mem_nil, or_false] at hweaver
    rcases hweaver with rfl | rfl
    · simp only [Plan.apply, Product.weave, hproduct]
      rfl
    · simp only [Plan.apply, onBody, FieldAccess.weave, hproduct]
      rfl
  | tests =>
    have htests : Lifecycle.skip? plan.settings target = some reason := hskip
    obtain rfl : weaver = .lifecycle := List.mem_singleton.1 hweaver
    simp only [Plan.apply, onBody, Lifecycle.weave, htests]
    rfl

/-- Or none of them leaves it alone. -/
theorem skipReason?_of_apply (hweaver : weaver ∈ phase.weavers)
    (hskip : phase.skip? plan.settings target = none) {w w' : Workpiece} {o : Outcome}
    (h : plan.apply weaver target w = .ok o w') : skipReason? o = none := by
  cases phase with
  | product =>
    simp only [weavers, Plan.productWeavers, List.mem_cons, List.not_mem_nil, or_false] at hweaver
    rcases hweaver with rfl | rfl
    · exact (Product.weave_reports h).skipReason?_eq.trans hskip
    · exact (FieldAccess.weave_reports (onBody_eq_ok h).1).skipReason?_eq.trans hskip
  | tests =>
    obtain rfl : weaver = .lifecycle := List.mem_singleton.1 hweaver
    exact (Lifecycle.weave_reports (onBody_eq_ok h).1).skipReason?_eq.trans hskip

end Phase

theorem SkipReason.label_injective : Function.Injective SkipReason.label := by
  intro r r' h
  cases r <;> cases r' <;> first | rfl | exact absurd h (by decide)

namespace Plan

variable {plan : Plan} {target : MethodTarget} {reason : SkipReason}

/-- Weavers that leave a method alone leave it as it is, but they look at its body. -/
theorem applyAll_eq_skipped {weavers : List Weaver}
    (h : ∀ weaver ∈ weavers, ∀ w, plan.apply weaver target w = .ok (.skipped reason) w)
    {w : Workpiece} (hbody : w.body.defect? = none) :
    plan.applyAll target weavers w = .ok (.replicate weavers.length (.skipped reason), w) := by
  induction weavers with
  | nil => rfl
  | cons weaver rest ih =>
    rw [List.forall_mem_cons] at h
    exact applyAll_cons_eq_ok.2 ⟨_, _, _, h.1 w, hbody, ih h.2, rfl⟩

theorem exists_applyAll_eq_error {weavers : List Weaver} (hne : weavers ≠ [])
    (h : ∀ weaver ∈ weavers, ∀ w, plan.apply weaver target w = .ok (.skipped reason) w)
    {w : Workpiece} {defect : Defect} (hbody : w.body.defect? = some defect) :
    ∃ f, plan.applyAll target weavers w = .error f := by
  obtain ⟨weaver, rest, rfl⟩ := List.exists_cons_of_ne_nil hne
  refine ⟨failure weaver target (.defective defect), ?_⟩
  rw [applyAll, h weaver List.mem_cons_self w]
  simp only [hbody]

/-- A method that its weavers do not leave alone is not skipped. -/
theorem skipReasons_eq_nil {weavers : List Weaver} (hne : weavers ≠ [])
    (h : ∀ weaver ∈ weavers, ∀ w o w', plan.apply weaver target w = .ok o w' →
      skipReason? o = none)
    {w w' : Workpiece} {outcomes : List Outcome}
    (happly : plan.applyAll target weavers w = .ok (outcomes, w')) (owner : String) :
    (processed owner outcomes).skipReasons = [] := by
  obtain ⟨weaver, rest, rfl⟩ := List.exists_cons_of_ne_nil hne
  obtain ⟨o, w₁, others, hweaver, -, -, rfl⟩ := applyAll_cons_eq_ok.1 happly
  have hnone := h weaver List.mem_cons_self w o w₁ hweaver
  have hskipped : (processed owner (o :: others)).isSkipped = false :=
    isSkipped_of_mem List.mem_cons_self hnone
  simpa [isSkipped] using hskipped

variable (plan) in
/-- What a report says of a method: the reason of its phase, once for each weaver. -/
theorem skipReasons_weaveMethod (phase : Phase) (c : Class) (m : Method) (s : Session) :
    (plan.weaveMethod phase.weavers c m s).2.2.skipReasons =
      (phase.reason? plan.settings c m).toList.flatMap (.replicate phase.weavers.length) := by
  have hne : phase.weavers ≠ [] := by cases phase <;> exact List.cons_ne_nil _ _
  rw [Phase.reason?]
  cases hskip : phase.skip? plan.settings (.of c m) with
  | none =>
    have hreasons : (plan.weaveMethod phase.weavers c m s).2.2.skipReasons = [] := by
      rw [weaveMethod]
      cases happly : plan.applyAll (.of c m) phase.weavers ⟨m.body, ⟨s.keys, []⟩⟩ with
      | error f => rfl
      | ok result =>
        exact skipReasons_eq_nil hne (fun weaver hweaver _ _ _ =>
          Phase.skipReason?_of_apply hweaver hskip) happly c.name
    rw [hreasons, ite_self]
    rfl
  | some reason =>
    have hall : ∀ weaver ∈ phase.weavers, ∀ w,
        plan.apply weaver (.of c m) w = .ok (.skipped reason) w :=
      fun weaver hweaver => Phase.apply_eq_skipped hweaver hskip
    rw [weaveMethod]
    cases hbody : m.body.defect? with
    | some defect =>
      obtain ⟨f, hf⟩ := exists_applyAll_eq_error hne hall (w := ⟨m.body, ⟨s.keys, []⟩⟩) hbody
      rw [hf]
      rfl
    | none =>
      rw [applyAll_eq_skipped hall hbody]
      change (processed c.name _).skipReasons = [reason].flatMap _
      rw [skipReasons_processed, if_pos, List.flatMap_singleton]
      · exact List.filterMap_replicate_of_some rfl
      intro o ho
      rw [List.eq_of_mem_replicate ho]
      rfl

variable (plan) in
/-- A method is skipped exactly if its phase has a reason. -/
theorem isSkipped_weaveMethod (phase : Phase) (c : Class) (m : Method) (s : Session) :
    (plan.weaveMethod phase.weavers c m s).2.2.isSkipped =
      (phase.reason? plan.settings c m).isSome := by
  rw [isSkipped, skipReasons_weaveMethod]
  cases phase.reason? plan.settings c m with
  | none => rfl
  | some reason => cases phase <;> rfl

variable (plan) in
/-- What a report says of methods: the reasons, once for each weaver. -/
theorem skipReasons_weaveEach (phase : Phase) (l : List (Class × Method)) (s : Session) :
    let reasons := l.filterMap fun e => phase.reason? plan.settings e.1 e.2
    let entries := (plan.weaveEach phase.weavers l s).2.2
    entries.flatMap (·.skipReasons) = reasons.flatMap (.replicate phase.weavers.length) ∧
      entries.countP (·.isSkipped) = reasons.length := by
  intro reasons entries
  induction l generalizing s with
  | nil => exact ⟨rfl, rfl⟩
  | cons e rest ih =>
    obtain ⟨hreasons, hcount⟩ := ih (plan.weaveMethod phase.weavers e.1 e.2 s).2.1
    have hentries : entries = (plan.weaveMethod phase.weavers e.1 e.2 s).2.2 ::
      (plan.weaveEach phase.weavers rest (plan.weaveMethod phase.weavers e.1 e.2 s).2.1).2.2 := rfl
    have hlist : reasons = (phase.reason? plan.settings e.1 e.2).toList ++
        rest.filterMap fun e => phase.reason? plan.settings e.1 e.2 := by
      cases h : phase.reason? plan.settings e.1 e.2 with
      | none => exact List.filterMap_cons_none h
      | some reason => exact List.filterMap_cons_some h
    constructor
    · rw [hentries, hlist, List.flatMap_cons, List.flatMap_append, skipReasons_weaveMethod,
        hreasons]
    · rw [hentries, hlist, List.countP_cons, List.length_append, isSkipped_weaveMethod, hcount,
        Nat.add_comm]
      cases phase.reason? plan.settings e.1 e.2 <;> rfl

end Plan

namespace PhaseRun

/-- The report of a run has the reasons of the run, once for each weaver. -/
theorem skipReasons_report (run : PhaseRun) :
    run.report.entries.flatMap (·.skipReasons) =
        run.reasons.flatMap (.replicate run.phase.weavers.length) ∧
      run.report.skipped = run.reasons.length := by
  have hreport : run.report = (run.plan.weave run.phase.weavers run.program run.session).2.2 := by
    rw [report]
    cases run.phase <;> rfl
  rw [hreport, Report.skipped, (run.plan.weave_eq _ _ _).2.2]
  exact run.plan.skipReasons_weaveEach run.phase _ _

/-! ## Several runs -/

theorem entries_joined (runs : List PhaseRun) :
    (joined runs).entries = runs.flatMap (·.report.entries) := by
  have hfold : ∀ report : Report,
      (runs.foldl (fun report run => report ++ run.report) report).entries =
        report.entries ++ runs.flatMap (·.report.entries) := by
    induction runs with
    | nil => exact fun report => (List.append_nil _).symm
    | cons run rest ih =>
      intro report
      rw [List.foldl_cons, ih, Plan.entries_append, List.flatMap_cons, List.append_assoc]
  exact hfold ∅

theorem reasonsIn_cons (phase : Phase) (run : PhaseRun) (rest : List PhaseRun) :
    reasonsIn phase (run :: rest) =
      (if run.phase = phase then run.reasons else []) ++ reasonsIn phase rest := by
  unfold reasonsIn
  by_cases h : run.phase = phase <;> simp [h]

theorem skipped_joined (runs : List PhaseRun) : (joined runs).skipped =
    (reasonsIn .product runs).length + (reasonsIn .tests runs).length := by
  rw [Report.skipped, entries_joined]
  induction runs with
  | nil => rfl
  | cons run rest ih =>
    have hrun : run.report.entries.countP (·.isSkipped) = run.reasons.length :=
      run.skipReasons_report.2
    rw [List.flatMap_cons, List.countP_append, ih, hrun]
    cases hphase : run.phase <;> simp [reasonsIn_cons, hphase] <;> omega

theorem countP_flatMap_replicate (q : SkipReason → Bool) (n : Nat) (l : List SkipReason) :
    (l.flatMap (.replicate n)).countP q = n * l.countP q := by
  induction l with
  | nil => rfl
  | cons reason rest ih =>
    rw [List.flatMap_cons, List.countP_append, ih, List.countP_replicate, List.countP_cons]
    split <;> simp [Nat.mul_add, Nat.add_comm]

/-- Every reason of the product phase is counted twice. -/
theorem countP_joined (q : SkipReason → Bool) (runs : List PhaseRun) :
    ((joined runs).entries.flatMap (·.skipReasons)).countP q =
      2 * (reasonsIn .product runs).countP q + (reasonsIn .tests runs).countP q := by
  rw [entries_joined]
  induction runs with
  | nil => rfl
  | cons run rest ih =>
    rw [List.flatMap_cons, List.flatMap_append, List.countP_append, ih, run.skipReasons_report.1,
      countP_flatMap_replicate]
    cases hphase : run.phase with
    | product =>
      simp [reasonsIn_cons, hphase, Phase.weavers, Plan.productWeavers]
      omega
    | tests =>
      simp [reasonsIn_cons, hphase, Phase.weavers, Plan.testWeavers]
      omega

/-- The skipped methods and the counts of their reasons, over any number of runs.  Each method is
skipped once, for the reason of its phase, but the product phase counts the reason twice.  So the
counts add up to the number of skipped methods only if that phase skipped none. -/
theorem skipReasons_joined (runs : List PhaseRun) :
    let report := joined runs
    let product := reasonsIn .product runs
    let tests := reasonsIn .tests runs
    report.skipped = product.length + tests.length ∧
      (∀ reason, (report.skipReasons.lookup reason.label).getD 0 =
        2 * product.count reason + tests.count reason) ∧
      (report.skipReasons.map (·.2)).sum = 2 * product.length + tests.length ∧
      ((report.skipReasons.map (·.2)).sum = report.skipped ↔
        ∀ run ∈ runs, run.phase = .product → run.reasons = []) := by
  intro report product tests
  have hskipped : report.skipped = product.length + tests.length := skipped_joined runs
  have hsum : (report.skipReasons.map (·.2)).sum = 2 * product.length + tests.length := by
    rw [Report.skipReasons, sum_sumByKey, List.map_map]
    have hcount := countP_joined (fun _ => true) runs
    simpa [Function.comp_def, report] using hcount
  refine ⟨hskipped, fun reason => ?_, hsum, ?_⟩
  · rw [Report.skipReasons, getD_lookup_sumByKey_labels SkipReason.label_injective]
    exact countP_joined (· == reason) runs
  · have hempty : product = [] ↔ ∀ run ∈ runs, run.phase = .product → run.reasons = [] := by
      simp [product, reasonsIn, List.flatMap_eq_nil_iff]
    rw [hsum, hskipped, ← hempty, ← List.length_eq_zero_iff]
    omega

/-- The product phase on a method of the tracing infrastructure. -/
def logging : PhaseRun where
  plan := {}
  phase := .product
  program := ⟨[{ name := "Logger", methods :=
    [{ name := "log", returnType := .void, body := { instrs := [⟨⟨0⟩, 5, .ret none⟩] } }] }]⟩
  session := ∅

-- One method is skipped, and its reason is counted twice.
example : (joined [logging]).skipped = 1 ∧
    (joined [logging]).skipReasons = [("infrastructure", 2)] := by
  decide

end PhaseRun

end TraceWeave
