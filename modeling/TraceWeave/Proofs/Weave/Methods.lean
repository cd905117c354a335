import TraceWeave.Weave.Session
import Mathlib.Data.List.Basic
import Mathlib.Data.List.Forall2

/-!
# Methods one after another

Weaving a program goes through its classes and through the methods of each class, and hands the
session from one method to the next.  `Plan.weaveEach` does the same over the plain list of the
methods, and `Plan.weave_eq` says that weaving a program is just that.  The k-th method is therefore
woven in the session that the methods before it leave (`Plan.sessionAt`), and
`Plan.getElem?_methods_weave` and `Plan.getElem?_entries_weave` say what becomes of it.
-/

namespace TraceWeave

/-- The methods of a program with their classes, in the order in which they are woven. -/
def Program.methodList (p : Program) : List (Class × Method) :=
  p.classes.flatMap fun c => c.methods.map fun m => (c, m)

/-- The methods of a program, in the order in which they are woven. -/
theorem Program.map_snd_methodList (p : Program) :
    p.methodList.map (·.2) = p.classes.flatMap (·.methods) := by
  simp [methodList, List.map_flatMap, Function.comp_def]

theorem Program.exists_methodList {p : Program} {k : Nat} {m : Method}
    (h : (p.classes.flatMap (·.methods))[k]? = some m) : ∃ c, p.methodList[k]? = some (c, m) := by
  rw [← p.map_snd_methodList, List.getElem?_map, Option.map_eq_some_iff] at h
  obtain ⟨⟨c, _⟩, hk, rfl⟩ := h
  exact ⟨c, hk⟩

namespace Plan

variable (plan : Plan) (weavers : List Weaver)

variable {plan} in
/-- Weavers go through if the first does, leaves a consistent body, and the others go through. -/
theorem applyAll_cons_eq_ok {target : MethodTarget} {weaver : Weaver} {rest : List Weaver}
    {w w' : Workpiece} {outcomes : List Outcome} :
    plan.applyAll target (weaver :: rest) w = .ok (outcomes, w') ↔
      ∃ outcome w₁ others, plan.apply weaver target w = .ok outcome w₁ ∧
        w₁.body.defect? = none ∧ plan.applyAll target rest w₁ = .ok (others, w') ∧
        outcomes = outcome :: others := by
  rw [applyAll]
  cases plan.apply weaver target w with
  | error e w₁ => simp
  | ok outcome w₁ =>
    cases hdefect : w₁.body.defect? with
    | some defect =>
      simp only [hdefect, reduceCtorEq, false_iff]
      rintro ⟨_, _, _, h, hnone, -⟩
      cases h
      rw [hdefect] at hnone
      cases hnone
    | none =>
      simp only [hdefect]
      cases hrest : plan.applyAll target rest w₁ with
      | error e =>
        refine ⟨fun h => (by cases h), ?_⟩
        rintro ⟨_, _, _, h, -, h', -⟩
        cases h
        rw [hrest] at h'
        cases h'
      | ok result =>
        obtain ⟨others, w₂⟩ := result
        constructor
        · intro h
          cases h
          exact ⟨outcome, w₁, others, rfl, hdefect, hrest, rfl⟩
        · rintro ⟨_, _, _, h, -, h', rfl⟩
          cases h
          rw [hrest] at h'
          cases h'
          rfl

/-- Weaves methods one after another. -/
def weaveEach : List (Class × Method) → Session → List Method × Session × List ReportEntry
  | [], s => ([], s, [])
  | (c, m) :: rest, s =>
    let (m, s, entry) := plan.weaveMethod weavers c m s
    let (methods, s, entries) := weaveEach rest s
    (m :: methods, s, entry :: entries)

theorem weaveEach_append (l l' : List (Class × Method)) (s : Session) :
    plan.weaveEach weavers (l ++ l') s =
      let (methods, s, entries) := plan.weaveEach weavers l s
      let (methods', s, entries') := plan.weaveEach weavers l' s
      (methods ++ methods', s, entries ++ entries') := by
  induction l generalizing s with
  | nil => rfl
  | cons e rest ih => simp only [List.cons_append, weaveEach, ih]

theorem length_weaveEach (l : List (Class × Method)) (s : Session) :
    (plan.weaveEach weavers l s).1.length = l.length ∧
      (plan.weaveEach weavers l s).2.2.length = l.length := by
  induction l generalizing s with
  | nil => exact ⟨rfl, rfl⟩
  | cons e rest ih =>
    obtain ⟨hmethods, hentries⟩ := ih (plan.weaveMethod weavers e.1 e.2 s).2.1
    exact ⟨congrArg (· + 1) hmethods, congrArg (· + 1) hentries⟩

theorem entries_append (r r' : Report) : (r ++ r').entries = r.entries ++ r'.entries := rfl

theorem weaveMethods_eq (c : Class) (methods : List Method) (s : Session) :
    (plan.weaveMethods weavers c methods s).1 =
        (plan.weaveEach weavers (methods.map fun m => (c, m)) s).1 ∧
      (plan.weaveMethods weavers c methods s).2.1 =
        (plan.weaveEach weavers (methods.map fun m => (c, m)) s).2.1 ∧
      (plan.weaveMethods weavers c methods s).2.2.entries =
        (plan.weaveEach weavers (methods.map fun m => (c, m)) s).2.2 := by
  induction methods generalizing s with
  | nil => exact ⟨rfl, rfl, rfl⟩
  | cons m rest ih =>
    obtain ⟨hmethods, hsession, hentries⟩ := ih (plan.weaveMethod weavers c m s).2.1
    simp only [weaveMethods, List.map_cons, weaveEach, entries_append, Report.ofEntry, hmethods,
      hsession, hentries, List.singleton_append, and_self]

theorem weaveClasses_eq (classes : List Class) (s : Session) :
    (plan.weaveClasses weavers classes s).1.flatMap (·.methods) =
        (plan.weaveEach weavers (Program.methodList ⟨classes⟩) s).1 ∧
      (plan.weaveClasses weavers classes s).2.1 =
        (plan.weaveEach weavers (Program.methodList ⟨classes⟩) s).2.1 ∧
      (plan.weaveClasses weavers classes s).2.2.entries =
        (plan.weaveEach weavers (Program.methodList ⟨classes⟩) s).2.2 := by
  induction classes generalizing s with
  | nil => exact ⟨rfl, rfl, rfl⟩
  | cons c rest ih =>
    obtain ⟨hmethods₁, hsession₁, hentries₁⟩ := plan.weaveMethods_eq weavers c c.methods s
    obtain ⟨hmethods, hsession, hentries⟩ := ih (plan.weaveMethods weavers c c.methods s).2.1
    have hlist : Program.methodList ⟨c :: rest⟩ =
        (c.methods.map fun m => (c, m)) ++ Program.methodList ⟨rest⟩ := rfl
    rw [hsession₁] at hmethods hsession hentries
    simp only [hlist, weaveEach_append, weaveClasses, List.flatMap_cons, entries_append]
    rw [hmethods₁, hsession₁, hentries₁, hmethods, hsession, hentries]
    exact ⟨rfl, rfl, rfl⟩

/-- Weaving a program is weaving its methods one after another. -/
theorem weave_eq (p : Program) (s : Session) :
    (plan.weave weavers p s).1.classes.flatMap (·.methods) =
        (plan.weaveEach weavers p.methodList s).1 ∧
      (plan.weave weavers p s).2.1 = (plan.weaveEach weavers p.methodList s).2.1 ∧
      (plan.weave weavers p s).2.2.entries = (plan.weaveEach weavers p.methodList s).2.2 :=
  plan.weaveClasses_eq weavers p.classes s

/-- The session in which the k-th method of a program is woven. -/
def sessionAt (p : Program) (s : Session) (k : Nat) : Session :=
  (plan.weaveEach weavers (p.methodList.take k) s).2.1

theorem getElem?_weaveEach {l : List (Class × Method)} {s : Session} {k : Nat} {c : Class}
    {m : Method} (h : l[k]? = some (c, m)) :
    (plan.weaveEach weavers l s).1[k]? =
        some (plan.weaveMethod weavers c m (plan.weaveEach weavers (l.take k) s).2.1).1 ∧
      (plan.weaveEach weavers l s).2.2[k]? =
        some (plan.weaveMethod weavers c m (plan.weaveEach weavers (l.take k) s).2.1).2.2 ∧
      (plan.weaveEach weavers (l.take (k + 1)) s).2.1 =
        (plan.weaveMethod weavers c m (plan.weaveEach weavers (l.take k) s).2.1).2.1 := by
  induction l generalizing s k with
  | nil => cases h
  | cons e rest ih =>
    cases k with
    | zero =>
      cases h
      exact ⟨rfl, rfl, rfl⟩
    | succ k =>
      rw [List.getElem?_cons_succ] at h
      exact ih (s := (plan.weaveMethod weavers e.1 e.2 s).2.1) h

section

variable {p : Program} {k : Nat} {c : Class} {m : Method} (s : Session)

/-- What becomes of the k-th method. -/
theorem getElem?_methods_weave (h : p.methodList[k]? = some (c, m)) :
    ((plan.weave weavers p s).1.classes.flatMap (·.methods))[k]? =
      some (plan.weaveMethod weavers c m (plan.sessionAt weavers p s k)).1 := by
  rw [(plan.weave_eq weavers p s).1]
  exact (plan.getElem?_weaveEach weavers h).1

/-- What is reported of the k-th method. -/
theorem getElem?_entries_weave (h : p.methodList[k]? = some (c, m)) :
    (plan.weave weavers p s).2.2.entries[k]? =
      some (plan.weaveMethod weavers c m (plan.sessionAt weavers p s k)).2.2 := by
  rw [(plan.weave_eq weavers p s).2.2]
  exact (plan.getElem?_weaveEach weavers h).2.1

/-- The session that the k-th method leaves. -/
theorem sessionAt_succ (h : p.methodList[k]? = some (c, m)) :
    plan.sessionAt weavers p s (k + 1) =
      (plan.weaveMethod weavers c m (plan.sessionAt weavers p s k)).2.1 :=
  (plan.getElem?_weaveEach weavers h).2.2

end

/-- The session after the last method is the one that weaving returns. -/
theorem sessionAt_length (p : Program) (s : Session) :
    plan.sessionAt weavers p s p.methodList.length = (plan.weave weavers p s).2.1 := by
  rw [sessionAt, List.take_length, (plan.weave_eq weavers p s).2.1]

theorem keys_weaveMethod (c : Class) (m : Method) (s : Session) :
    s.keys <+: (plan.weaveMethod weavers c m s).2.1.keys := by
  unfold weaveMethod
  split
  · exact List.prefix_rfl
  · exact List.prefix_append _ _

/-- A key that was logged stays logged. -/
theorem keys_sessionAt_mono (p : Program) (s : Session) {j k : Nat} (h : j ≤ k) :
    (plan.sessionAt weavers p s j).keys <+: (plan.sessionAt weavers p s k).keys := by
  induction h with
  | refl => exact List.prefix_rfl
  | @step k _ ih =>
    refine ih.trans ?_
    cases hk : p.methodList[k]? with
    | none =>
      have hstays : plan.sessionAt weavers p s (k + 1) = plan.sessionAt weavers p s k := by
        rw [sessionAt, sessionAt, List.take_add_one, hk, Option.toList_none, List.append_nil]
      exact hstays ▸ List.prefix_rfl
    | some e =>
      rw [plan.sessionAt_succ weavers s hk]
      exact plan.keys_weaveMethod weavers e.1 e.2 _

/-- The k-th method either keeps its body, because a weaver failed, or gets the body that the
weavers leave. -/
theorem weave_cases_at {p : Program} {k : Nat} {c : Class} {m : Method} (s : Session)
    (h : p.methodList[k]? = some (c, m)) :
    (∃ f, plan.applyAll (.of c m) weavers ⟨m.body, ⟨(plan.sessionAt weavers p s k).keys, []⟩⟩ =
        .error f ∧
      ((plan.weave weavers p s).1.classes.flatMap (·.methods))[k]? = some m ∧
      plan.sessionAt weavers p s (k + 1) = plan.sessionAt weavers p s k ∧
      (plan.weave weavers p s).2.2.entries[k]? = some (.rolledBack f)) ∨
    ∃ outcomes w,
      plan.applyAll (.of c m) weavers ⟨m.body, ⟨(plan.sessionAt weavers p s k).keys, []⟩⟩ =
        .ok (outcomes, w) ∧
      ((plan.weave weavers p s).1.classes.flatMap (·.methods))[k]? =
        some { m with body := w.body } ∧
      plan.sessionAt weavers p s (k + 1) =
        (plan.sessionAt weavers p s k).commit w.ledger.pending ∧
      (plan.weave weavers p s).2.2.entries[k]? = some (.processed c.name outcomes) := by
  have hmethod := plan.getElem?_methods_weave weavers s h
  have hentry := plan.getElem?_entries_weave weavers s h
  have hsession := plan.sessionAt_succ weavers s h
  rw [weaveMethod] at hmethod hentry hsession
  cases happly : plan.applyAll (.of c m) weavers
      ⟨m.body, ⟨(plan.sessionAt weavers p s k).keys, []⟩⟩ with
  | error f =>
    rw [happly] at hmethod hentry hsession
    exact .inl ⟨f, rfl, hmethod, hsession, hentry⟩
  | ok result =>
    obtain ⟨outcomes, w⟩ := result
    rw [happly] at hmethod hentry hsession
    exact .inr ⟨outcomes, w, rfl, hmethod, hsession, hentry⟩

variable {plan weavers} in
/-- In a clean run, all weavers go through on every method. -/
theorem exists_applyAll_of_isClean {p : Program} {s : Session}
    (hclean : (plan.weave weavers p s).2.2.isClean) {k : Nat} {c : Class} {m : Method}
    (h : p.methodList[k]? = some (c, m)) :
    ∃ outcomes w,
      plan.applyAll (.of c m) weavers ⟨m.body, ⟨(plan.sessionAt weavers p s k).keys, []⟩⟩ =
        .ok (outcomes, w) ∧
      ((plan.weave weavers p s).1.classes.flatMap (·.methods))[k]? =
        some { m with body := w.body } ∧
      plan.sessionAt weavers p s (k + 1) =
        (plan.sessionAt weavers p s k).commit w.ledger.pending := by
  rcases plan.weave_cases_at weavers s h with
    ⟨f, -, -, -, hentry⟩ | ⟨outcomes, w, happly, hmethod, hsession, -⟩
  · have hmem : f ∈ (plan.weave weavers p s).2.2.failures :=
      List.mem_filterMap.2 ⟨_, List.mem_of_getElem? hentry, rfl⟩
    rw [Report.isClean, List.isEmpty_iff] at hclean
    rw [hclean] at hmem
    cases hmem
  · exact ⟨outcomes, w, happly, hmethod, hsession⟩

end Plan

/-! ## Classes and their methods -/

/-- The second class is the first with other methods, each related to the one in its place. -/
def Class.Corresponds (R : Class → Method → Method → Prop) (c c' : Class) : Prop :=
  c' = { c with methods := c'.methods } ∧ List.Forall₂ (R c) c.methods c'.methods

namespace Plan

variable {plan : Plan} {weavers : List Weaver} {R : Class → Method → Method → Prop}

theorem weaveMethods_corresponds {entries : List ReportEntry} {c : Class} {methods : List Method}
    {s : Session} (hentries : (plan.weaveMethods weavers c methods s).2.2.entries ⊆ entries)
    (h : ∀ m ∈ methods, ∀ s, (plan.weaveMethod weavers c m s).2.2 ∈ entries →
      R c m (plan.weaveMethod weavers c m s).1) :
    List.Forall₂ (R c) methods (plan.weaveMethods weavers c methods s).1 := by
  induction methods generalizing s with
  | nil => exact .nil
  | cons m rest ih =>
    simp only [weaveMethods, entries_append, Report.ofEntry, List.singleton_append,
      List.cons_subset] at hentries
    exact .cons (h m (by simp) s hentries.1) (ih hentries.2 fun m hm => h m (by simp [hm]))

/-- What weaving does to every method of a program, as far as it is reported. -/
theorem weave_corresponds {p : Program} {s : Session}
    (h : ∀ c ∈ p.classes, ∀ m ∈ c.methods, ∀ s',
      (plan.weaveMethod weavers c m s').2.2 ∈ (plan.weave weavers p s).2.2.entries →
        R c m (plan.weaveMethod weavers c m s').1) :
    List.Forall₂ (Class.Corresponds R) p.classes (plan.weave weavers p s).1.classes := by
  have hclasses : ∀ (entries : List ReportEntry) (classes : List Class) (s : Session),
      (plan.weaveClasses weavers classes s).2.2.entries ⊆ entries →
      (∀ c ∈ classes, ∀ m ∈ c.methods, ∀ s', (plan.weaveMethod weavers c m s').2.2 ∈ entries →
        R c m (plan.weaveMethod weavers c m s').1) →
      List.Forall₂ (Class.Corresponds R) classes (plan.weaveClasses weavers classes s).1 := by
    intro entries classes
    induction classes with
    | nil => exact fun _ _ _ => .nil
    | cons c rest ih =>
      intro s hentries h
      simp only [weaveClasses, entries_append, List.append_subset] at hentries
      exact .cons ⟨rfl, weaveMethods_corresponds hentries.1 (h c (by simp))⟩
        (ih _ hentries.2 fun c hc => h c (by simp [hc]))
  exact hclasses _ p.classes s (fun _ he => he) h

/-- In a clean run, every method is what the weavers leave. -/
theorem weave_corresponds_of_isClean {p : Program} {s : Session}
    (hclean : (plan.weave weavers p s).2.2.isClean)
    (h : ∀ c ∈ p.classes, ∀ m ∈ c.methods, ∀ (s' : Session) outcomes w,
      plan.applyAll (.of c m) weavers ⟨m.body, ⟨s'.keys, []⟩⟩ = .ok (outcomes, w) →
        R c m { m with body := w.body }) :
    List.Forall₂ (Class.Corresponds R) p.classes (plan.weave weavers p s).1.classes := by
  refine weave_corresponds fun c hc m hm s' hentry => ?_
  rw [weaveMethod] at hentry ⊢
  cases happly : plan.applyAll (.of c m) weavers ⟨m.body, ⟨s'.keys, []⟩⟩ with
  | error f =>
    rw [happly] at hentry
    have hmem : f ∈ (plan.weave weavers p s).2.2.failures := List.mem_filterMap.2 ⟨_, hentry, rfl⟩
    rw [List.isEmpty_iff.1 hclean] at hmem
    cases hmem
  | ok result => exact h c hc m hm s' result.1 result.2 happly

end Plan

end TraceWeave
