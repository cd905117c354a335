import TraceWeave.Proofs.Machine.Repetition
import TraceWeave.Proofs.Weave.Simulation

/-!
# Refinement of programs

A body refines another if its runs follow those of the other, whatever the calls do as long as they
follow one another too (`Body.Refines`).  Weaving a body refines it (`Plan.refines_of_applyAll`),
bodies that refine compose to programs that do (`Program.Refines`), and the machine follows along a
refinement at every call depth (`Setup.checkedInvoke_follows`). Refinement goes from one program to
the next, so it holds of any number of weavings one after another.
-/

namespace TraceWeave

/-! ## Bodies -/

/-- The second body is regular, and its runs follow those of the first one. -/
structure Body.Refines (b b' : Body) : Prop where
  regular : b'.Regular
  follows : ∀ {calls calls' : Nat → Call}, CallsFollow calls calls → CallsFollow calls calls' →
    ∀ frame, Follows Eq (fun limit => b.checkedFrom limit (calls limit) (limit + 1) frame 0)
      (fun limit => b'.checkedFrom limit (calls' limit) (limit + 1) frame 0)

namespace Body.Refines

variable {b b' b'' : Body}

theorem of_weaves {y : Layout} (h : y.Weaves b b') (hb : b.Regular)
    (hconsistent : b'.defect? = none) : b.Refines b' := by
  refine ⟨h.regular hb hconsistent, fun {calls calls'} _ hcalls frame => ?_⟩
  have hnodup := labels_nodup_of_defect? hconsistent
  -- The rounds that the marks at the entry take are spare.
  have hgrow : Filter.Tendsto (fun limit => limit + 1 - y.opening.length) Filter.atTop
      Filter.atTop :=
    (Filter.tendsto_sub_atTop_nat _).comp (Filter.tendsto_add_atTop_nat 1)
  have hmarks : ∀ op ∈ y.opening.map (·.2), op.isMark := by
    intro op hop
    obtain ⟨e, he, rfl⟩ := List.mem_map.1 hop
    exact h.opening e he
  have hrun : ∀ rounds, Follows Eq
      (fun limit => b.checkedFrom limit (calls limit) rounds frame 0)
      (fun limit => b'.checkedFrom limit (calls' limit) (limit + 1) frame 0) := by
    intro rounds
    have hopening := (runLine_marks_follows calls' hmarks frame).bind_right
      (S := Eq) (z := fun limit => b.checkedFrom limit (calls limit) rounds frame 0)
      (g := fun limit p => b'.checkedFrom limit (calls' limit) (limit + 1 - y.opening.length) p.1
        (y.start 0)) fun p hp => by
          rw [hp]
          exact h.checkedFrom_follows hcalls hb hnodup rounds (Nat.zero_le _) (.refl frame) hgrow
    refine hopening.congr_right ?_
    filter_upwards [Filter.eventually_ge_atTop y.opening.length] with limit hlimit
    have hline := checkedFrom_line (fun op hop => Operation.isStraight_of_isMark (hmarks op hop))
      h.lays.at_opening limit (calls' limit) (limit + 1 - y.opening.length) frame
    rw [List.length_map, Nat.zero_add, Nat.sub_add_cancel (by omega)] at hline
    rw [hline, Layout.start_zero]
  exact fun limit => hrun (limit + 1) limit

theorem refl (hb : b.Regular) : b.Refines b := of_weaves (.refl b) hb hb.consistent

theorem trans (h : b.Refines b') (h' : b'.Refines b'') : b.Refines b'' :=
  ⟨h'.regular, fun hself hcalls frame =>
    (h.follows hself hself frame).trans_eq (h'.follows hself hcalls frame)⟩

end Body.Refines

/-- Weavers that go through leave a body that refines the one they were given. -/
theorem Plan.refines_of_applyAll {plan : Plan} {target : MethodTarget} {weavers : List Weaver}
    {w w' : Workpiece} {outcomes : List Outcome}
    (h : plan.applyAll target weavers w = .ok (outcomes, w')) (hw : w.body.Regular) :
    w.body.Refines w'.body := by
  induction weavers generalizing w outcomes with
  | nil =>
    cases h
    exact .refl hw
  | cons weaver rest ih =>
    obtain ⟨outcome, w₁, others, happly, hconsistent, hrest, -⟩ := applyAll_cons_eq_ok.1 h
    obtain ⟨y, hy⟩ := exists_weaves_of_apply happly (Body.labels_nodup_of_defect? hconsistent)
    have hfirst := Body.Refines.of_weaves hy hw hconsistent
    exact hfirst.trans (ih hrest hfirst.regular)

/-! ## Programs -/

/-- The second method is the first with a body that refines. -/
def Method.Refines (m m' : Method) : Prop :=
  m' = { m with body := m'.body } ∧ m.body.Refines m'.body

/-- The second class is the first with methods that refine. -/
def Class.Refines (c c' : Class) : Prop :=
  c' = { c with methods := c'.methods } ∧ List.Forall₂ Method.Refines c.methods c'.methods

/-- The classes of the second program refine those of the first. -/
def Program.Refines (p p' : Program) : Prop := List.Forall₂ Class.Refines p.classes p'.classes

/-- All bodies of a program are regular. -/
def Program.Regular (p : Program) : Prop := ∀ c ∈ p.classes, ∀ m ∈ c.methods, m.body.Regular

theorem Method.Refines.trans {m m' m'' : Method} (h : m.Refines m') (h' : m'.Refines m'') :
    m.Refines m'' := by
  refine ⟨?_, h.2.trans h'.2⟩
  rw [h'.1, h.1]

theorem Class.Refines.trans {c c' c'' : Class} (h : c.Refines c') (h' : c'.Refines c'') :
    c.Refines c'' := by
  refine ⟨?_, forall₂_comp (fun _ _ _ hm hm' => hm.trans hm') h.2 h'.2⟩
  rw [h'.1, h.1]

namespace Program.Refines

variable {p p' p'' : Program}

theorem refl (hp : p.Regular) : p.Refines p :=
  List.forall₂_same.2 fun c hc => ⟨rfl, List.forall₂_same.2 fun m hm => ⟨rfl, .refl (hp c hc m hm)⟩⟩

theorem trans (h : p.Refines p') (h' : p'.Refines p'') : p.Refines p'' :=
  forall₂_comp (fun _ _ _ hc hc' => hc.trans hc') h h'

theorem regular (h : p.Refines p') : p'.Regular := by
  intro c' hc' m' hm'
  obtain ⟨c, -, -, hmethods⟩ := exists_of_mem_forall₂ h hc'
  obtain ⟨m, -, -, hbody⟩ := exists_of_mem_forall₂ hmethods hm'
  exact hbody.regular

end Program.Refines

namespace Plan

variable (plan : Plan) (weavers : List Weaver)

theorem weaveMethod_refines (c : Class) {m : Method} (hm : m.body.Regular) (s : Session) :
    m.Refines (plan.weaveMethod weavers c m s).1 := by
  unfold weaveMethod
  split
  · exact ⟨rfl, .refl hm⟩
  · next happly => exact ⟨rfl, refines_of_applyAll happly hm⟩

/-- Weaving a program refines it: a method that is rolled back stays what it was. -/
theorem weave_refines {p : Program} (hp : p.Regular) (s : Session) :
    p.Refines (plan.weave weavers p s).1 :=
  weave_corresponds fun c hc m hm s' _ => plan.weaveMethod_refines weavers c (hp c hc m hm) s'

end Plan

/-- A call names methods that refine one another. -/
theorem Program.Refines.method? {p p' : Program} (h : p.Refines p') (owner name : String) :
    Option.Rel Method.Refines ((p.class? owner).bind fun c => c.method? name)
      ((p'.class? owner).bind fun c => c.method? name) := by
  have hclass : Option.Rel Class.Refines (p.class? owner) (p'.class? owner) :=
    find?_forall₂ (fun c c' hc => by rw [hc.1]) h
  generalize p.class? owner = c, p'.class? owner = c' at hclass
  cases hclass with
  | none => exact .none
  | some hc => exact find?_forall₂ (fun m m' hm => by rw [hm.1]) hc.2

/-! ## Machines -/

namespace Setup

variable {natives : Natives}

/-- Calls within a program, at a call depth, under every limit. -/
def callsAt (p : Program) (natives : Natives) (depth limit : Nat) : Call :=
  dispatch ⟨p, natives, limit⟩ (checkedExecute ⟨p, natives, limit⟩ depth)

variable {p p' : Program}

/-- A method that refines another does the same, if the calls follow. -/
theorem checkedExecute_follows {depth : Nat}
    (hself : CallsFollow (callsAt p natives depth) (callsAt p natives depth))
    (hcalls : CallsFollow (callsAt p natives depth) (callsAt p' natives depth)) (owner : String)
    {m m' : Method} (hm : m.Refines m') (args : List Value) :
    Follows Eq (fun limit => checkedExecute ⟨p, natives, limit⟩ (depth + 1) owner m args)
      (fun limit => checkedExecute ⟨p', natives, limit⟩ (depth + 1) owner m' args) := by
  obtain ⟨heq, hbody⟩ := hm
  generalize m'.body = b' at heq hbody
  subst heq
  simp only [checkedExecute]
  split
  · exact .throw (by simp)
  · exact .inFrame (hbody.follows hself hcalls _)

/-- Calls follow along a refinement at every depth. -/
theorem callsAt_follow (hp : p.Regular) (h : p.Refines p') (depth : Nat) :
    CallsFollow (callsAt p natives depth) (callsAt p natives depth) ∧
      CallsFollow (callsAt p natives depth) (callsAt p' natives depth) := by
  have hrefl := Program.Refines.refl hp
  induction depth with
  | zero =>
    exact ⟨dispatch_follows hrefl.method? fun _ _ _ _ _ => .throw (by simp),
      dispatch_follows h.method? fun _ _ _ _ _ => .throw (by simp)⟩
  | succ depth ih =>
    obtain ⟨hself, hcalls⟩ := ih
    exact ⟨dispatch_follows hrefl.method? fun owner m m' args hm =>
        checkedExecute_follows hself hself owner hm args,
      dispatch_follows h.method? fun owner m m' args hm =>
        checkedExecute_follows hself hcalls owner hm args⟩

/-- A program that refines another follows it from the top level. -/
theorem checkedInvoke_follows (hp : p.Regular) (h : p.Refines p') (natives : Natives)
    (owner method : String) (args : List Value) :
    Follows Eq (fun limit => checkedInvoke ⟨p, natives, limit⟩ owner method args)
      (fun limit => checkedInvoke ⟨p', natives, limit⟩ owner method args) :=
  .bind_eq (.modify_unseen fun _ => ⟨rfl, rfl, rfl, rfl⟩) fun _ =>
    (callsAt_follow hp h (maxDepth + 1)).2 ⟨owner, method, .void⟩ args

end Setup

end TraceWeave
