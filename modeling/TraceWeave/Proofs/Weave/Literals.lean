import TraceWeave.Proofs.ClassFile.Constants
import TraceWeave.Proofs.Weave.Permits
import TraceWeave.Proofs.Weave.Preservation

/-!
# The constants of a woven program

Weaving moves the constants of a condition into temporaries and compares negated operands with
zeros, but it loses no constant and brings in no other.  So a property that zeros have holds of all
constants of a woven class just if it holds of those that the class had
(`Plan.forall_literals_weaveRuns`).
-/

namespace TraceWeave

/-! ## Constants of scripts -/

theorem Operation.literals_retarget (f : Label → Label) (op : Operation) :
    (op.retarget f).literals = op.literals := by
  cases op <;> rfl

section

variable {site : BranchSite} {v : Value} {locals : List Local}

theorem Script.mem_literals_held (ops : List Operation) {value : Expr} (source : Source)
    (hv : v ∈ value.literals) :
    ∃ op ∈ (held site ops value source locals).ops, v ∈ op.literals :=
  ⟨_, List.mem_append_right _ List.mem_cons_self, hv⟩

/-- What a script computes, its operand computes too. -/
theorem Script.mem_literals_operand {s : Script} (h : ∃ op ∈ s.ops, v ∈ op.literals) :
    ∃ op ∈ (s.operand site).ops, v ∈ op.literals := by
  obtain ⟨op, hop, hv⟩ := h
  rcases s.operand_cases site with ⟨x, -, hs⟩ | ⟨-, hs⟩ <;> rw [hs]
  · exact ⟨op, hop, hv⟩
  · exact ⟨op, List.mem_append_left _ hop, hv⟩

/-- Every constant of a decomposed expression is computed by its script. -/
theorem mem_literals_script {e : Expr} {s : Script} (h : script site e locals = .ok s)
    (hv : v ∈ e.literals) : ∃ op ∈ s.ops, v ∈ op.literals := by
  induction e generalizing locals s with
  | value w =>
    cases h
    exact Script.mem_literals_held [] .constant hv
  | unary op e ih =>
    obtain ⟨t, ht, rfl⟩ := script_unary_eq_ok h
    obtain ⟨op, hop, hv⟩ := Script.mem_literals_operand (ih ht hv)
    exact ⟨op, List.mem_append_left _ hop, hv⟩
  | binary op l r ihl ihr =>
    obtain ⟨t, u, -, ht, hu, rfl⟩ := script_binary_eq_ok h
    rcases List.mem_append.1 hv with hv | hv
    · obtain ⟨op, hop, hv⟩ := Script.mem_literals_operand (ihl ht hv)
      exact ⟨op, List.mem_append_left _ (List.mem_append_left _ hop), hv⟩
    · obtain ⟨op, hop, hv⟩ := Script.mem_literals_operand (ihr hu hv)
      exact ⟨op, List.mem_append_left _ (List.mem_append_right _ hop), hv⟩
  | call callee args =>
    cases h
    exact Script.mem_literals_held [] .variable hv
  | _ => cases hv

end

/-! ## Weaving -/

/-- No constant is lost by a weaver. -/
theorem Layout.Weaves.literals_subset {y : Layout} {b b' : Body} (h : y.Weaves b b') :
    b.literals ⊆ b'.literals := by
  intro v hv
  obtain ⟨i, hi, hv⟩ := List.mem_flatMap.1 hv
  obtain ⟨s, hs, hwoven⟩ := exists_of_mem_forall₂ h.slots.flip hi
  have hslot : ∀ j ∈ s.emit y.destination, j ∈ b'.instrs := fun j hj => by
    rw [h.lays.instrs_eq, instrs]
    exact List.mem_append_left _ (List.mem_append_right _ (List.mem_flatMap.2 ⟨s, hs, hj⟩))
  -- The instruction is kept, or it is a branch and its condition is decomposed.
  rcases hwoven with ⟨hinstr, -⟩ | ⟨site, marks, ops, -, hops, hdecomposed⟩
  · refine List.mem_flatMap.2 ⟨_, hslot _ (List.mem_append_right _ (List.mem_singleton_self _)), ?_⟩
    rw [hinstr]
    exact (Operation.literals_retarget _ i.op).symm ▸ hv
  · obtain ⟨condition, target, before, r, hop, -, hr, -, rfl, -⟩ := hdecomposed
    rw [hop] at hv
    obtain ⟨op, hmem, hv⟩ := mem_literals_script hr hv
    have hmem : op ∈ s.ops := hops ▸ List.mem_append_right _ (List.mem_append_left _ hmem)
    obtain ⟨e, he, rfl⟩ := List.mem_map.1 hmem
    exact List.mem_flatMap.2 ⟨_, hslot _ (List.mem_append_left _ (List.mem_map_of_mem he)), hv⟩

theorem Plan.literals_subset_applyAll {plan : Plan} {target : MethodTarget} {weavers : List Weaver}
    {w w' : Workpiece} {outcomes : List Outcome}
    (h : plan.applyAll target weavers w = .ok (outcomes, w')) :
    w.body.literals ⊆ w'.body.literals := by
  induction weavers generalizing w outcomes with
  | nil =>
    cases h
    exact List.Subset.refl _
  | cons weaver rest ih =>
    obtain ⟨_, w₁, _, hweaver, hconsistent, hrest, -⟩ := applyAll_cons_eq_ok.1 h
    obtain ⟨y, hy⟩ := exists_weaves_of_apply hweaver (Body.labels_nodup_of_defect? hconsistent)
    exact List.Subset.trans hy.literals_subset (ih hrest)

section

variable {P : Value → Prop} (hzero : ∀ ty, P (.zero ty))

/-- All constants have a property that zeros have. -/
def Permit.literals (file : String) : Permit file where
  op o := ∀ v ∈ o.literals, P v
  expr e := ∀ v ∈ e.literals, P v
  var _ := True
  retarget f h := by rwa [Operation.literals_retarget]
  branch_iff := Iff.rfl
  var_iff := iff_of_true (fun _ h => absurd h List.not_mem_nil) trivial
  of_unary h := h
  of_binary h := List.forall_mem_append.1 h
  unaryOver {o x} _ := by
    cases o with
    | not => exact List.forall_mem_singleton.2 (hzero x.ty)
    | _ => exact fun _ h => absurd h List.not_mem_nil
  binary _ _ := fun _ h => absurd h List.not_mem_nil
  temporary _ := trivial
  assign _ h := h
  capture _ := fun _ h => absurd h List.not_mem_nil
  condition _ _ := fun _ h => absurd h List.not_mem_nil
  lineReached := fun _ h => absurd h List.not_mem_nil
  branchReached := fun _ h => absurd h List.not_mem_nil
  fieldRead _ _ := fun _ h => absurd h List.not_mem_nil

theorem Body.forall_literals {b : Body} :
    (∀ v ∈ b.literals, P v) ↔ b.All fun o => ∀ v ∈ o.literals, P v :=
  List.forall_mem_flatMap

include hzero

namespace Plan

/-- A property of zeros holds of the constants of a woven method just if it held of those there
were. -/
theorem forall_literals_weaveMethod (plan : Plan) (weavers : List Weaver) (c : Class) (m : Method)
    (s : Session) :
    (∀ v ∈ (plan.weaveMethod weavers c m s).1.body.literals, P v) ↔ ∀ v ∈ m.body.literals, P v := by
  unfold weaveMethod
  split
  · exact Iff.rfl
  · next outcomes w happly =>
    refine ⟨fun h v hv => h v (literals_subset_applyAll happly hv), fun h => ?_⟩
    rw [Body.forall_literals] at h ⊢
    have hnone : ∀ v ∈ ([] : List Value), P v := fun _ h => absurd h List.not_mem_nil
    exact (Permit.literals hzero c.sourcePath).applyAll rfl
      (fun _ => ⟨hnone, hnone, hnone⟩) happly h

theorem forall_literals_weave (plan : Plan) (weavers : List Weaver) (p : Program) (s : Session) :
    List.Forall₂ (fun c c' : Class => (∀ v ∈ c'.literals, P v) ↔ ∀ v ∈ c.literals, P v)
      p.classes (plan.weave weavers p s).1.classes := by
  have hcorresponds : List.Forall₂ (Class.Corresponds fun _ m m' =>
      (∀ v ∈ m'.body.literals, P v) ↔ ∀ v ∈ m.body.literals, P v) p.classes
      (plan.weave weavers p s).1.classes :=
    weave_corresponds fun c _ m _ s' _ => plan.forall_literals_weaveMethod hzero weavers c m s'
  refine hcorresponds.imp fun c c' ⟨heq, hmethods⟩ => ?_
  have hmethods : (∀ m ∈ c'.methods, ∀ v ∈ m.body.literals, P v) ↔
      ∀ m ∈ c.methods, ∀ v ∈ m.body.literals, P v := by
    constructor
    · intro h m hm
      obtain ⟨m', hm', hiff⟩ := exists_of_mem_forall₂ hmethods.flip hm
      exact hiff.1 (h m' hm')
    · intro h m' hm'
      obtain ⟨m, hm, hiff⟩ := exists_of_mem_forall₂ hmethods hm'
      exact hiff.2 (h m hm)
  rw [Class.literals, Class.literals, List.forall_mem_append, List.forall_mem_append,
    List.forall_mem_flatMap (l := c'.methods), List.forall_mem_flatMap (l := c.methods), hmethods,
    heq]

/-- However often a program is woven, a property of zeros holds of the constants of a class just if
it held of those there were. -/
theorem forall_literals_weaveRuns (runs : List (Plan × List Weaver)) (p : Program) (s : Session) :
    List.Forall₂ (fun c c' : Class => (∀ v ∈ c'.literals, P v) ↔ ∀ v ∈ c.literals, P v)
      p.classes (weaveRuns runs p s).1.classes :=
  weaveRuns_forall₂ (fun _ => Iff.rfl) (fun _ _ _ h h' => h'.trans h)
    (forall_literals_weave hzero) runs p s

end Plan

end

end TraceWeave
