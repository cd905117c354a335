import TraceWeave.Proofs.Machine.Offers
import TraceWeave.Proofs.Trace.Records
import TraceWeave.Proofs.Weave.Edits
import TraceWeave.Proofs.Weave.Permits
import TraceWeave.Proofs.Weave.Preservation

/-!
# Plain names

If the names in a program have no commas and no line feeds, then those in the events of its probes
have none, however the program was woven: what weaving inserts is named after what was there
(`Plan.plain_weaveRuns`).  The values that probes capture may be anything.
-/

namespace TraceWeave

open Text (IsPlain)

/-! ## Names in a program -/

/-- A variable with a plain name, of a type with a plain name. -/
def Local.Plain (x : Local) : Prop := IsPlain x.name ∧ IsPlain x.ty.text

mutual

/-- The names in an expression are plain. -/
def Expr.Plain : Expr → Prop
  | .value _ => True
  | .var x => x.Plain
  | .unary _ e => e.Plain
  | .binary _ l r => l.Plain ∧ r.Plain
  | .call callee args => IsPlain callee.returnType.text ∧ Expr.PlainAll args
  | .field f => IsPlain f.qualifiedName ∧ IsPlain f.ty.text
  | .unmapped _ ty => IsPlain ty.text

/-- The names in expressions are plain. -/
def Expr.PlainAll : List Expr → Prop
  | [] => True
  | e :: rest => e.Plain ∧ Expr.PlainAll rest

end

/-- The names in a probe are plain; the name of a test may have commas. -/
def Probe.Plain : Probe → Prop
  | .lineReached file _ | .branchReached file _ _ => IsPlain file
  | .condition file _ _ left _ right => IsPlain file ∧ IsPlain left ∧ IsPlain right
  | .capture file _ x _ => IsPlain file ∧ x.Plain
  | .fieldRead file _ field => IsPlain file ∧ IsPlain field
  | .testStart test | .testEnd test => '\n' ∉ test.toList

/-- The names in an operation are plain. -/
def Operation.Plain : Operation → Prop
  | .assign _ value => value.Plain
  | .branch condition _ => condition.Plain
  | .goto _ | .nop | .ret none => True
  | .invoke _ args => Expr.PlainAll args
  | .ret (some value) => value.Plain
  | .probe p => p.Plain

/-- The names in a method are plain. -/
structure Method.Plain (m : Method) : Prop where
  name : IsPlain m.name
  params : ∀ x ∈ m.params, x.Plain
  returnType : IsPlain m.returnType.text
  body : m.body.All Operation.Plain

/-- The names in a class are plain. -/
structure Class.Plain (c : Class) : Prop where
  name : IsPlain c.name
  sourcePath : IsPlain c.sourcePath
  methods : ∀ m ∈ c.methods, m.Plain

/-- The names in a program are plain. -/
def Program.Plain (p : Program) : Prop := ∀ c ∈ p.classes, c.Plain

/-! ## Types and fields -/

theorem Ty.plain_promoteUnary (t : Ty) : IsPlain t.promoteUnary.text := by
  unfold promoteUnary
  split <;> decide

theorem Ty.plain_promote (t u : Ty) : IsPlain (t.promote u).text := by
  unfold promote
  split <;> decide

theorem Value.plain_ty (v : Value) : IsPlain v.ty.text := by
  unfold Value.ty
  split <;> decide

namespace Expr

theorem Plain.ty {e : Expr} (h : e.Plain) : IsPlain e.ty.text := by
  induction e with
  | value v => exact v.plain_ty
  | var x => exact h.2
  | unary op e _ =>
    cases op with
    | not => exact show IsPlain "boolean" by decide
    | neg => exact Ty.plain_promoteUnary _
    | bitNot => exact Ty.plain_promoteUnary _
  | binary op l r _ _ =>
    rw [Expr.ty]
    split
    · decide
    · split
      · decide
      · split
        · exact Ty.plain_promoteUnary _
        · exact Ty.plain_promote _ _
  | call callee args _ => exact h.1
  | field f => exact h.2
  | unmapped description ty => exact h

theorem Plain.fieldReads {e : Expr} (h : e.Plain) {f : FieldRef} (hf : f ∈ e.fieldReads) :
    IsPlain f.qualifiedName := by
  induction e with
  | field g =>
    rw [List.mem_singleton.1 hf]
    exact h.1
  | unary op e ih => exact ih h hf
  | binary op l r ihl ihr =>
    rcases List.mem_append.1 hf with hf | hf
    · exact ihl h.1 hf
    · exact ihr h.2 hf
  | call callee args ih =>
    have hargs := h.2
    change f ∈ fieldReadsOf args at hf
    clear h
    induction args with
    | nil => cases hf
    | cons e rest ihrest =>
      rcases List.mem_append.1 hf with hf | hf
      · exact ih e (by simp) hargs.1 hf
      · exact ihrest (fun d hd => ih d (by simp [hd])) hargs.2 hf
  | _ => cases hf

end Expr

/-! ## Weaving -/

theorem plain_temporaryName (n : Nat) : IsPlain (Body.temporaryName n) := by
  have hname : (Body.temporaryName n).toList =
      Body.temporaryStem.toList ++ (toString n).toList := by
    rw [Body.temporaryName, String.toList_append]
  have hstem : IsPlain Body.temporaryStem := by decide
  constructor <;> rw [hname, List.mem_append, not_or]
  · exact ⟨hstem.1, Text.not_mem_numeral (by decide) n⟩
  · exact ⟨hstem.2, Text.not_mem_numeral (by decide) n⟩

/-- No line feed stands in the signature of a method with plain names. -/
theorem Method.Plain.signature {m : Method} (h : m.Plain) {owner : String}
    (howner : IsPlain owner) : '\n' ∉ (m.signature owner).toList := by
  have hparams : ∀ x ∈ m.params, '\n' ∉ x.ty.text.toList := fun x hx => (h.params x hx).2.2
  simpa [Method.signature, String.toList_intercalate, mem_intercalate_iff, howner.2, h.name.2,
    h.returnType.2] using hparams

/-- Everything with plain names. -/
def Permit.plain {file : String} (hfile : IsPlain file) : Permit file where
  op := Operation.Plain
  expr := Expr.Plain
  var := Local.Plain
  retarget {o} f h := by cases o <;> exact h
  branch_iff := Iff.rfl
  var_iff := Iff.rfl
  of_unary h := h
  of_binary h := h
  unaryOver {o x} h := by
    cases o
    · exact h
    · exact ⟨h, trivial⟩
    · exact h
  binary h h' := ⟨h, h'⟩
  temporary h := ⟨plain_temporaryName _, h.ty⟩
  assign _ h := h
  capture h := ⟨hfile, h⟩
  condition h h' := ⟨hfile, h.1, h'.1⟩
  lineReached := hfile
  branchReached := hfile
  fieldRead h hf := ⟨hfile, h.fieldReads hf⟩

/-- Weaving a method leaves it with plain names. -/
theorem Plan.plain_weaveMethod (plan : Plan) (weavers : List Weaver) {c : Class} (hc : c.Plain)
    {m : Method} (hm : m.Plain) (s : Session) : (plan.weaveMethod weavers c m s).1.Plain := by
  unfold weaveMethod
  split
  · exact hm
  · next outcomes w happly =>
    have hsignature := hm.signature hc.name
    have hmarkers : (Permit.plain hc.sourcePath).Markers (MethodTarget.of c m).signature :=
      { start := hsignature
        finish := hsignature
        ret := trivial }
    have hbody := (Permit.plain hc.sourcePath).applyAll rfl (fun _ => hmarkers) happly hm.body
    exact ⟨hm.name, hm.params, hm.returnType, hbody⟩

theorem Plan.plain_weave (plan : Plan) (weavers : List Weaver) {p : Program} (hp : p.Plain)
    (s : Session) : (plan.weave weavers p s).1.Plain := by
  have hcorresponds : List.Forall₂ (Class.Corresponds fun _ _ m' => m'.Plain) p.classes
      (plan.weave weavers p s).1.classes :=
    weave_corresponds fun c hc m hm s' _ =>
      plan.plain_weaveMethod weavers (hp c hc) ((hp c hc).methods m hm) s'
  intro c' hc'
  obtain ⟨c, hc, heq, hmethods⟩ := exists_of_mem_forall₂ hcorresponds hc'
  rw [heq]
  refine ⟨(hp c hc).name, (hp c hc).sourcePath, fun m' hm' => ?_⟩
  obtain ⟨_, _, h⟩ := exists_of_mem_forall₂ hmethods hm'
  exact h

/-- However often a program is woven, its names stay plain. -/
theorem Plan.plain_weaveRuns (runs : List (Plan × List Weaver)) {p : Program} (hp : p.Plain)
    (s : Session) : (weaveRuns runs p s).1.Plain := by
  induction runs generalizing p s with
  | nil => exact hp
  | cons run rest ih => exact ih (run.1.plain_weave run.2 hp s) _

/-! ## Events -/

/-- The event of which a request keeps the record. -/
def RecorderRequest.event? : RecorderRequest → Option Event
  | .event e => some e
  | .beginTest test => some (.testStart test)
  | .endTest test => some (.testEnd test)
  | _ => none

/-- What probes with plain names ask for has plain names. -/
theorem Program.Plain.event {p : Program} (hp : p.Plain) {r : RecorderRequest} (h : p.Offers r)
    {e : Event} (he : r.event? = some e) : e.Plain := by
  obtain ⟨c, hc, m, hm, i, hi, probe, frame, hop, hr⟩ := h
  have hprobe : probe.Plain := by
    have := ((hp c hc).methods m hm).body i hi
    rwa [hop] at this
  cases probe with
  | capture file line x source =>
    obtain ⟨v, -, rfl⟩ := Option.map_eq_some_iff.1 hr
    cases he
    exact ⟨hprobe.1, hprobe.2.1, hprobe.2.2, by cases source <;> decide⟩
  | condition file line index left op right =>
    cases hr
    cases he
    exact ⟨hprobe.1, hprobe.2.1, by cases op <;> decide, hprobe.2.2⟩
  | _ =>
    cases hr
    cases he
    exact hprobe

end TraceWeave
