import TraceWeave.Proofs.Weave.Methods
import TraceWeave.Proofs.Weave.Product

/-!
# Malformed methods

A method is checked after each weaver and not before the first one, so the question is what a weaver
can do to a defect.  A label that stands twice stays, because no weaver removes a label.  A jump
that leads nowhere keeps its target, and is turned into a sound one exactly if the weaver happens to
give that label to an instruction that it inserts.  `Plan.keepsAt_iff_of_defect?` says that this is
the only way for a malformed method to be accepted, and that a malformed method that is not accepted
keeps its body, reserves no line, and is reported.
-/

namespace TraceWeave

namespace Plan

variable {plan : Plan}

/-- The body that a weaver leaves has a layout over the instructions that it was given. -/
theorem apply_layout {weaver : Weaver} {target : MethodTarget} {w w' : Workpiece} {o : Outcome}
    (h : plan.apply weaver target w = .ok o w') (hnodup : w'.body.labels.Nodup) :
    ∃ y : Layout, y.Lays w'.body ∧ List.Forall₂ Instr.Carried w.body.instrs y.slots := by
  cases weaver with
  | product =>
    obtain ⟨-, added, -, y, hy, -, -, hslots⟩ := Product.weave_layout h hnodup
    exact ⟨y, hy, hslots.imp fun i s hs => by
      obtain ⟨ops, -, hbranches⟩ := hs
      exact hbranches.carried⟩
  | fieldAccess =>
    obtain ⟨-, y, hy, -, -, hslots⟩ := FieldAccess.weave_layout (onBody_eq_ok h).1 hnodup
    exact ⟨y, hy, hslots.imp fun i s hs => .of_eq hs.1⟩
  | lifecycle =>
    obtain ⟨-, y, hy, -, -, hslots⟩ := Lifecycle.weave_layout (onBody_eq_ok h).1 hnodup
    exact ⟨y, hy, hslots.imp fun i s hs => .of_eq hs.1⟩

end Plan

/-! ## What becomes of jumps -/

/-- A woven body with distinct labels is consistent exactly if every jump that led nowhere before
now leads to a woven instruction. -/
theorem Body.defect?_eq_none_iff_of_layout {b b' : Body} {y : Layout} (hy : y.Lays b')
    (hslots : List.Forall₂ Instr.Carried b.instrs y.slots) :
    b'.defect? = none ↔ b'.labels.Nodup ∧ ∀ t ∈ b.danglingTargets, t ∈ b'.labels := by
  rw [defect?_eq_none_iff]
  refine and_congr_right fun hnodup => ?_
  have horigins := Layout.origins_eq_labels hslots
  have hlabels := hy.labels_eq
  rw [Layout.targets_eq_map hy hslots]
  constructor
  · intro h t ht
    obtain ⟨htarget, hnot⟩ := mem_danglingTargets.1 ht
    have := h _ (List.mem_map_of_mem htarget)
    rwa [Layout.destination_of_not_mem (horigins ▸ hnot)] at this
  · intro h t ht
    obtain ⟨t, htarget, rfl⟩ := List.mem_map.1 ht
    by_cases hmem : t ∈ b.labels
    · -- A jump that led somewhere leads to the start of a slot.
      rw [hlabels]
      rcases y.destination_eq_or_mem t with heq | ⟨e, he, heq⟩
      · rw [heq]
        exact y.labels_perm.mem_iff.2 (by simp [horigins, hmem])
      · rw [heq]
        exact y.labels_perm.mem_iff.2 (List.mem_append_right _ (List.mem_map_of_mem he))
    · rw [Layout.destination_of_not_mem (horigins ▸ hmem)]
      exact h t (mem_danglingTargets.2 ⟨htarget, hmem⟩)

/-! ## When a method is accepted -/

namespace Plan

variable {plan : Plan}

/-- The weavers go through, and the first of them leaves distinct labels, among which is every label
that a jump of the method missed. -/
def Accepts (plan : Plan) (first : Weaver) (rest : List Weaver) (c : Class) (m : Method)
    (s : Session) : Prop :=
  ∃ outcome w, plan.apply first (.of c m) ⟨m.body, ⟨s.keys, []⟩⟩ = .ok outcome w ∧
    w.body.labels.Nodup ∧ (∀ t ∈ m.body.danglingTargets, t ∈ w.body.labels) ∧
    ∃ result, plan.applyAll (.of c m) rest w = .ok result

theorem accepts_iff {first : Weaver} {rest : List Weaver} {c : Class} {m : Method} {s : Session} :
    plan.Accepts first rest c m s ↔
      ∃ result, plan.applyAll (.of c m) (first :: rest) ⟨m.body, ⟨s.keys, []⟩⟩ = .ok result := by
  have hiff : ∀ outcome w, plan.apply first (.of c m) ⟨m.body, ⟨s.keys, []⟩⟩ = .ok outcome w →
      (w.body.defect? = none ↔
        w.body.labels.Nodup ∧ ∀ t ∈ m.body.danglingTargets, t ∈ w.body.labels) := by
    intro outcome w happly
    by_cases hnodup : w.body.labels.Nodup
    · obtain ⟨y, hy, hslots⟩ := apply_layout happly hnodup
      exact Body.defect?_eq_none_iff_of_layout hy hslots
    · exact ⟨fun h => absurd (Body.labels_nodup_of_defect? h) hnodup, fun h => absurd h.1 hnodup⟩
  constructor
  · rintro ⟨outcome, w, happly, hnodup, htargets, ⟨others, w'⟩, hrest⟩
    exact ⟨(outcome :: others, w'), applyAll_cons_eq_ok.2
      ⟨outcome, w, others, happly, (hiff outcome w happly).2 ⟨hnodup, htargets⟩, hrest, rfl⟩⟩
  · rintro ⟨⟨outcomes, w'⟩, h⟩
    obtain ⟨outcome, w, others, happly, hdefect, hrest, -⟩ := applyAll_cons_eq_ok.1 h
    obtain ⟨hnodup, htargets⟩ := (hiff outcome w happly).1 hdefect
    exact ⟨outcome, w, happly, hnodup, htargets, (others, w'), hrest⟩

/-- Every failure names the method that was woven. -/
theorem signature_of_applyAll_eq_error {target : MethodTarget} {weavers : List Weaver}
    {w : Workpiece} {f : MethodFailure} (h : plan.applyAll target weavers w = .error f) :
    f.signature = target.signature := by
  induction weavers generalizing w with
  | nil => cases h
  | cons weaver rest ih =>
    unfold applyAll at h
    split at h
    · cases h
      rfl
    · split at h
      · cases h
        rfl
      · next hrest =>
        cases hrest : plan.applyAll target rest _ with
        | error e =>
          rw [hrest] at h
          cases h
          exact ih hrest
        | ok result =>
          rw [hrest] at h
          cases h

/-- The k-th method of a program, `m` of class `c`, keeps its body, reserves no line, and is
reported as a failure. -/
structure KeepsAt (plan : Plan) (weavers : List Weaver) (p : Program) (s : Session) (k : Nat)
    (c : Class) (m : Method) : Prop where
  /-- The method is what it was. -/
  method : ((plan.weave weavers p s).1.classes.flatMap (·.methods))[k]? = some m
  /-- The session is what it was before the method. -/
  session : plan.sessionAt weavers p s (k + 1) = plan.sessionAt weavers p s k
  /-- A failure of the method is reported. -/
  reported : ∃ f, (plan.weave weavers p s).2.2.entries[k]? = some (.rolledBack f) ∧
    f.signature = m.signature c.name

theorem keepsAt_iff_exists_error {weavers : List Weaver} {p : Program} {s : Session} {k : Nat}
    {c : Class} {m : Method} (h : p.methodList[k]? = some (c, m)) :
    plan.KeepsAt weavers p s k c m ↔
      ∃ f, plan.applyAll (.of c m) weavers ⟨m.body, ⟨(plan.sessionAt weavers p s k).keys, []⟩⟩ =
        .error f := by
  rcases plan.weave_cases_at weavers s h with
    ⟨f, happly, hmethod, hsession, hentry⟩ | ⟨outcomes, w, happly, -, -, hentry⟩
  · exact ⟨fun _ => ⟨f, happly⟩, fun _ =>
      ⟨hmethod, hsession, f, hentry, signature_of_applyAll_eq_error happly⟩⟩
  · constructor
    · intro hkeeps
      obtain ⟨f, hf, -⟩ := hkeeps.reported
      rw [hentry] at hf
      cases hf
    · rintro ⟨f, hf⟩
      rw [happly] at hf
      cases hf

theorem keepsAt_iff {first : Weaver} {rest : List Weaver} {p : Program} {s : Session} {k : Nat}
    {c : Class} {m : Method} (h : p.methodList[k]? = some (c, m)) :
    plan.KeepsAt (first :: rest) p s k c m ↔
      ¬ plan.Accepts first rest c m (plan.sessionAt (first :: rest) p s k) := by
  rw [keepsAt_iff_exists_error h, accepts_iff]
  cases plan.applyAll (.of c m) (first :: rest)
    ⟨m.body, ⟨(plan.sessionAt (first :: rest) p s k).keys, []⟩⟩ <;> simp

/-- A malformed method keeps its body, reserves no line and is reported, unless its labels are
distinct and the weavers go through with the first of them giving every label that a jump missed to
an instruction that it inserts. -/
theorem keepsAt_iff_of_defect? {first : Weaver} {rest : List Weaver} {p : Program} {s : Session}
    {k : Nat} {c : Class} {m : Method} (h : p.methodList[k]? = some (c, m))
    (hdefect : m.body.defect? ≠ none) :
    plan.KeepsAt (first :: rest) p s k c m ↔
      ¬ (m.body.labels.Nodup ∧ m.body.danglingTargets ≠ [] ∧
        plan.Accepts first rest c m (plan.sessionAt (first :: rest) p s k)) := by
  rw [keepsAt_iff h]
  refine not_congr ⟨fun haccepts => ?_, fun ⟨_, _, haccepts⟩ => haccepts⟩
  obtain ⟨outcome, w, happly, hnodup, -⟩ := id haccepts
  obtain ⟨y, hy, hslots⟩ := apply_layout happly hnodup
  have hlabels : m.body.labels.Nodup := by
    rw [← Layout.origins_eq_labels hslots]
    exact Layout.origins_nodup (Layout.labels_eq_of_instrs hy.instrs_eq ▸ hnodup)
  refine ⟨hlabels, fun hnone => hdefect ?_, haccepts⟩
  rw [Body.defect?_eq_none_iff]
  refine ⟨hlabels, fun t ht => ?_⟩
  by_contra hmissing
  have hdangling := Body.mem_danglingTargets.2 ⟨ht, hmissing⟩
  rw [hnone] at hdangling
  cases hdangling

/-- A method that jumps to a label that it does not have, one above the labels that it has. -/
def spinning : Method :=
  { name := "spin", returnType := .void, body := { instrs := [⟨⟨0⟩, 5, .goto ⟨1⟩⟩] } }

/-- A class with one method. -/
def lone (m : Method) : Class := { name := "Foo", sourceFile := some "Foo.java", methods := [m] }

/-- A plan that requests line 5. -/
def requestingFive : Plan := { lines := ⟨[("Foo.java", ⟨[⟨5, 5⟩]⟩)]⟩ }

/-- The probe of line 5 takes the missing label, and the method is accepted; without the request it
is not. -/
theorem spinning_keepsAt_iff_unrequested :
    ¬ requestingFive.KeepsAt productWeavers ⟨[lone spinning]⟩ ∅ 0 (lone spinning) spinning ∧
      KeepsAt {} productWeavers ⟨[lone spinning]⟩ ∅ 0 (lone spinning) spinning := by
  have hdefect : spinning.body.defect? ≠ none := by decide
  constructor
  · refine fun hkeeps => (keepsAt_iff_of_defect? rfl hdefect).1 hkeeps ?_
    exact ⟨by decide, by decide, accepts_iff.2 ⟨_, rfl⟩⟩
  · refine (keepsAt_iff_of_defect? rfl hdefect).2 ?_
    rintro ⟨-, -, haccepts⟩
    obtain ⟨result, hresult⟩ := accepts_iff.1 haccepts
    cases hresult

end Plan

end TraceWeave
