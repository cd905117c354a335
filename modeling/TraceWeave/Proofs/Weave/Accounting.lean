import TraceWeave.Proofs.Trace.Summaries
import TraceWeave.Proofs.Weave.Malformed
import TraceWeave.Proofs.Weave.ProbeCounts

/-!
# Reports add up

Every number in a report is computed from what weavers say of themselves, method by method.  What
the numbers should be is a matter of the two programs, the one that was given and the one that was
woven.  `Plan.accounts_weave` says that they agree: a weaver says how many probes it has added, so
the outcomes of a method add up to what its body has gained, the methods of a class to what the
class has gained, and the classes to what the program has gained.  A method that is rolled back has
neither outcomes nor a changed body.
-/

namespace TraceWeave

open ReportEntry

/-! ## What is to be counted -/

/-- Whether the body of a second method is another one. -/
noncomputable def Method.hasOtherBody (m m' : Method) : Bool :=
  @decide (m'.body ≠ m.body) (Classical.propDecidable _)

theorem Method.hasOtherBody_iff {m m' : Method} : m.hasOtherBody m' ↔ m'.body ≠ m.body :=
  @decide_eq_true_iff _ (Classical.propDecidable _)

namespace Program

/-- The number of probes in a program. -/
def probeCount (p : Program) : Nat := ((p.classes.flatMap (·.methods)).map (·.body.probeCount)).sum

/-- The number of probes in the classes with a name. -/
def probeCountOf (p : Program) (name : String) : Nat :=
  probeCount ⟨p.classes.filter fun c => c.name = name⟩

/-- The number of methods that have another body in a second program. -/
noncomputable def changedBodies (p p' : Program) : Nat :=
  ((p.classes.flatMap (·.methods)).zip (p'.classes.flatMap (·.methods))).countP fun e =>
    e.1.hasOtherBody e.2

theorem probeCount_cons (c : Class) (rest : List Class) :
    probeCount ⟨c :: rest⟩ = (c.methods.map (·.body.probeCount)).sum + probeCount ⟨rest⟩ := by
  simp [probeCount]

end Program

namespace ReportEntry

/-- The probes woven into a method of a class whose name is asked for. -/
def probesIf (q : String → Bool) : ReportEntry → Nat
  | .processed owner outcomes => if q owner then (processed owner outcomes).probes else 0
  | .rolledBack _ => 0

theorem sum_probesIf_true (entries : List ReportEntry) :
    (entries.map (probesIf fun _ => true)).sum = (entries.map (·.probes)).sum :=
  congrArg List.sum (List.map_congr_left fun e _ => by cases e <;> rfl)

/-- The probes that are counted for some classes. -/
theorem sum_classProbes? (q : String → Bool) (entries : List ReportEntry) :
    (((entries.filterMap (·.classProbes?)).filter fun c => q c.1).map (·.2)).sum =
      (entries.map (probesIf q)).sum := by
  induction entries with
  | nil => rfl
  | cons e rest ih =>
    rw [List.map_cons, List.sum_cons, ← ih]
    cases e with
    | rolledBack f => exact (Nat.zero_add _).symm
    | processed owner outcomes =>
      by_cases hzero : (processed owner outcomes).probes = 0
      · simp [classProbes?, probesIf, hzero]
      · by_cases hq : q owner <;> simp [classProbes?, probesIf, hzero, hq]

theorem pos_of_mem_classProbes? {entries : List ReportEntry} :
    ∀ c ∈ entries.filterMap (·.classProbes?), 0 < c.2 := by
  intro c hc
  obtain ⟨e, -, he⟩ := List.mem_filterMap.1 hc
  cases e with
  | rolledBack f => cases he
  | processed owner outcomes =>
    rw [classProbes?] at he
    split at he
    · cases he
    · next hne =>
      cases he
      exact Nat.pos_of_ne_zero hne

end ReportEntry

/-- A report counts how the second program differs from the first. -/
structure Report.Counts (r : Report) (p p' : Program) : Prop where
  /-- All methods of the program are counted. -/
  methods : r.methods = (p.classes.flatMap (·.methods)).length
  /-- The methods of the two programs correspond. -/
  aligned : (p'.classes.flatMap (·.methods)).length = (p.classes.flatMap (·.methods)).length
  /-- The probes are those that the program has gained. -/
  probes : p.probeCount + r.probes = p'.probeCount
  /-- Every class that is listed is listed once, by ascending name. -/
  ascends : Ascends r.probesByClass
  /-- Exactly the classes that have gained probes are listed, with what they have gained. -/
  byClass : ∀ name n, (name, n) ∈ r.probesByClass ↔
    0 < n ∧ p.probeCountOf name + n = p'.probeCountOf name
  /-- The instrumented methods are those with another body. -/
  instrumented : r.instrumented = p.changedBodies p'

namespace Plan

variable (plan : Plan) (weavers : List Weaver)

/-- The failure of the weavers on a method, if one of them fails. -/
def failure? (c : Class) (m : Method) (s : Session) : Option MethodFailure :=
  match plan.applyAll (.of c m) weavers ⟨m.body, ⟨s.keys, []⟩⟩ with
  | .error f => some f
  | .ok _ => none

/-- The failure of the weavers on the k-th method, if one of them fails. -/
def failureAt (p : Program) (s : Session) (k : Nat) : Option MethodFailure :=
  p.methodList[k]?.bind fun e => plan.failure? weavers e.1 e.2 (plan.sessionAt weavers p s k)

variable {plan weavers} in
theorem failureAt_eq_some_iff {p : Program} {s : Session} {k : Nat} {c : Class} {m : Method}
    (h : p.methodList[k]? = some (c, m)) {f : MethodFailure} :
    plan.failureAt weavers p s k = some f ↔
      plan.applyAll (.of c m) weavers ⟨m.body, ⟨(plan.sessionAt weavers p s k).keys, []⟩⟩ =
        .error f := by
  rw [failureAt, h, Option.bind_some, failure?]
  cases plan.applyAll (.of c m) weavers ⟨m.body, ⟨(plan.sessionAt weavers p s k).keys, []⟩⟩ <;> simp

/-- The report of a run says what the run has done: its numbers are right, and its failures are those
of the methods that were rolled back. -/
structure Accounts (p : Program) (s : Session) : Prop where
  /-- The report counts what distinguishes the woven program from the one that was given. -/
  counts : (plan.weave weavers p s).2.2.Counts p (plan.weave weavers p s).1
  /-- The failures are those of the weavers, in the order of the methods. -/
  failures : (plan.weave weavers p s).2.2.failures =
    (List.range p.methodList.length).filterMap (plan.failureAt weavers p s)
  /-- A method on which a weaver fails is rolled back, and no other one is. -/
  rolledBack : ∀ k c m, p.methodList[k]? = some (c, m) →
    (plan.KeepsAt weavers p s k c m ↔ (plan.failureAt weavers p s k).isSome)
  /-- A failure names its method. -/
  named : ∀ k c m f, p.methodList[k]? = some (c, m) → plan.failureAt weavers p s k = some f →
    f.signature = m.signature c.name
  /-- An outcome counts the probes afterwards less the probes before, and these are no more than
  those. -/
  noUnderflow : ∀ weaver target w o w', plan.apply weaver target w = .ok o w' →
    w.body.probeCount ≤ w'.body.probeCount ∧
      outcomeProbes o = w'.body.probeCount - w.body.probeCount

/-! ## One method -/

section

variable (c : Class) (m : Method) (s : Session)

/-- The outcomes of a method count the probes that its body has gained. -/
theorem probeCount_weaveMethod :
    m.body.probeCount + (plan.weaveMethod weavers c m s).2.2.probes =
      (plan.weaveMethod weavers c m s).1.body.probeCount := by
  unfold weaveMethod
  split
  · rfl
  · next happly => exact probeCount_applyAll happly c.name

/-- A method has another body exactly if probes are reported. -/
theorem body_weaveMethod_eq_iff :
    (plan.weaveMethod weavers c m s).1.body = m.body ↔
      (plan.weaveMethod weavers c m s).2.2.probes = 0 := by
  have hgains : Body.GainsProbes m.body (plan.weaveMethod weavers c m s).1.body := by
    unfold weaveMethod
    split
    · exact Body.gainsProbes_stepClosed.refl _
    · next happly => exact Body.gainsProbes_stepClosed.applyAll happly
  have hcount := plan.probeCount_weaveMethod weavers c m s
  rw [hgains.eq_iff]
  omega

theorem hasOtherBody_weaveMethod :
    m.hasOtherBody (plan.weaveMethod weavers c m s).1 =
      ((plan.weaveMethod weavers c m s).2.2.probes != 0) := by
  rw [Bool.eq_iff_iff, Method.hasOtherBody_iff, bne_iff_ne]
  exact not_congr (plan.body_weaveMethod_eq_iff weavers c m s)

/-- Probes are reported under the name of the class. -/
theorem probesIf_weaveMethod (q : String → Bool) :
    (plan.weaveMethod weavers c m s).2.2.probesIf q =
      if q c.name then (plan.weaveMethod weavers c m s).2.2.probes else 0 := by
  unfold weaveMethod
  split
  · split <;> rfl
  · rfl

theorem failure?_weaveMethod :
    (plan.weaveMethod weavers c m s).2.2.failure? = plan.failure? weavers c m s := by
  unfold weaveMethod failure?
  cases plan.applyAll (.of c m) weavers ⟨m.body, ⟨s.keys, []⟩⟩ <;> rfl

end

/-! ## Many methods -/

theorem filterMap_getElem? {α β : Type} (f : α → Option β) (l : List α) :
    ((List.range l.length).filterMap fun k => l[k]?.bind f) = l.filterMap f := by
  induction l with
  | nil => rfl
  | cons a rest ih =>
    rw [List.length_cons, List.range_succ_eq_map, List.filterMap_cons, List.filterMap_cons,
      List.filterMap_map, ← ih]
    rfl

/-- The methods of a class gain the probes that are counted for the class. -/
theorem probeCount_weaveMethods {q : String → Bool} {c : Class} (hq : q c.name)
    (methods : List Method) (s : Session) :
    (methods.map (·.body.probeCount)).sum +
        ((plan.weaveMethods weavers c methods s).2.2.entries.map (probesIf q)).sum =
      ((plan.weaveMethods weavers c methods s).1.map (·.body.probeCount)).sum := by
  induction methods generalizing s with
  | nil => rfl
  | cons m rest ih =>
    have hfirst := plan.probeCount_weaveMethod weavers c m s
    have hrest := ih (plan.weaveMethod weavers c m s).2.1
    simp only [weaveMethods, entries_append, Report.ofEntry, List.singleton_append, List.map_cons,
      List.sum_cons, probesIf_weaveMethod, if_pos hq]
    rw [Nat.add_add_add_comm, hfirst]
    exact congrArg (_ + ·) hrest

theorem sum_probesIf_weaveMethods {q : String → Bool} {c : Class} (hq : ¬ q c.name)
    (methods : List Method) (s : Session) :
    ((plan.weaveMethods weavers c methods s).2.2.entries.map (probesIf q)).sum = 0 := by
  induction methods generalizing s with
  | nil => rfl
  | cons m rest ih =>
    simp only [weaveMethods, entries_append, Report.ofEntry, List.singleton_append, List.map_cons,
      List.sum_cons, probesIf_weaveMethod, if_neg hq, ih]

/-- Classes gain the probes that are counted for them. -/
theorem probeCount_weaveClasses (q : String → Bool) (classes : List Class) (s : Session) :
    Program.probeCount ⟨classes.filter fun c => q c.name⟩ +
        ((plan.weaveClasses weavers classes s).2.2.entries.map (probesIf q)).sum =
      Program.probeCount ⟨(plan.weaveClasses weavers classes s).1.filter fun c => q c.name⟩ := by
  induction classes generalizing s with
  | nil => rfl
  | cons c rest ih =>
    have hrest := ih (plan.weaveMethods weavers c c.methods s).2.1
    simp only [weaveClasses, entries_append, List.map_append, List.sum_append]
    by_cases hq : q c.name
    · have hfirst := plan.probeCount_weaveMethods weavers hq c.methods s
      simp only [List.filter_cons, hq, if_true, Program.probeCount_cons]
      rw [Nat.add_add_add_comm, hfirst]
      exact congrArg (_ + ·) hrest
    · simp only [List.filter_cons, hq, plan.sum_probesIf_weaveMethods weavers hq, Nat.zero_add]
      exact hrest

theorem probeCount_weave (q : String → Bool) (p : Program) (s : Session) :
    Program.probeCount ⟨p.classes.filter fun c => q c.name⟩ +
        ((plan.weave weavers p s).2.2.entries.map (probesIf q)).sum =
      Program.probeCount ⟨(plan.weave weavers p s).1.classes.filter fun c => q c.name⟩ :=
  plan.probeCount_weaveClasses weavers q p.classes s

theorem countP_weaveEach (l : List (Class × Method)) (s : Session) :
    (plan.weaveEach weavers l s).2.2.countP (fun e => e.probes != 0) =
      ((l.map (·.2)).zip (plan.weaveEach weavers l s).1).countP fun e => e.1.hasOtherBody e.2 := by
  induction l generalizing s with
  | nil => rfl
  | cons e rest ih =>
    obtain ⟨c, m⟩ := e
    simp only [weaveEach, List.map_cons, List.zip_cons_cons, List.countP_cons, ih,
      hasOtherBody_weaveMethod]

theorem methods_weave (p : Program) (s : Session) :
    (plan.weave weavers p s).2.2.methods = p.methodList.length := by
  rw [Report.methods, (plan.weave_eq weavers p s).2.2]
  exact (plan.length_weaveEach weavers _ s).2

theorem failures_weave (p : Program) (s : Session) :
    (plan.weave weavers p s).2.2.failures =
      (List.range p.methodList.length).filterMap (plan.failureAt weavers p s) := by
  have hlength : (plan.weave weavers p s).2.2.entries.length = p.methodList.length :=
    plan.methods_weave weavers p s
  rw [Report.failures, ← filterMap_getElem?, hlength]
  refine List.filterMap_congr fun k hk => ?_
  have hk : k < p.methodList.length := List.mem_range.1 hk
  have hmethod : p.methodList[k]? = some p.methodList[k] := List.getElem?_eq_getElem _
  rw [plan.getElem?_entries_weave weavers s hmethod, failureAt, hmethod]
  exact plan.failure?_weaveMethod weavers _ _ _

theorem probesByClass_weave (p : Program) (s : Session) (name : String) (n : Nat) :
    (name, n) ∈ (plan.weave weavers p s).2.2.probesByClass ↔
      0 < n ∧ p.probeCountOf name + n = (plan.weave weavers p s).1.probeCountOf name := by
  have hgained := plan.probeCount_weave weavers (fun other => other = name) p s
  rw [← sum_classProbes?] at hgained
  rw [Report.probesByClass, mem_sumByKey pos_of_mem_classProbes?, Program.probeCountOf,
    Program.probeCountOf]
  omega

theorem counts_weave (p : Program) (s : Session) :
    (plan.weave weavers p s).2.2.Counts p (plan.weave weavers p s).1 where
  methods := by rw [methods_weave, ← p.map_snd_methodList, List.length_map]
  aligned := by
    rw [(plan.weave_eq weavers p s).1, (plan.length_weaveEach weavers _ s).1,
      ← p.map_snd_methodList, List.length_map]
  probes := by
    have hgained := plan.probeCount_weave weavers (fun _ => true) p s
    rwa [List.filter_true, List.filter_true, sum_probesIf_true] at hgained
  ascends := ascends_sumByKey _
  byClass := plan.probesByClass_weave weavers p s
  instrumented := by
    rw [Report.instrumented, Program.changedBodies, (plan.weave_eq weavers p s).2.2,
      (plan.weave_eq weavers p s).1, ← p.map_snd_methodList]
    exact plan.countP_weaveEach weavers _ s

/-- Whatever weavers are run on a program, those of the product phase and that of the test phase
among them, the report accounts for what they have done. -/
theorem accounts_weave (p : Program) (s : Session) : plan.Accounts weavers p s where
  counts := plan.counts_weave weavers p s
  failures := plan.failures_weave weavers p s
  rolledBack k c m h := by
    rw [keepsAt_iff_exists_error h, Option.isSome_iff_exists]
    exact exists_congr fun f => (failureAt_eq_some_iff h).symm
  named k c m f h hf := signature_of_applyAll_eq_error ((failureAt_eq_some_iff h).1 hf)
  noUnderflow _ _ _ _ _ h := ⟨Body.probeCount_editClosed.apply h, outcomeProbes_apply h⟩

end Plan

end TraceWeave
