import TraceWeave.ClassFile.Probe
import TraceWeave.Proofs.ClassFile.Constants
import TraceWeave.Proofs.ClassFile.ReadsBack

/-!
# Reading types, expressions and probes back

The parts of an instruction are read back from their documents: types, constants other than floats,
variables, fields, callees and probes.  What is read for a float constant may be another one, or
nothing, because an infinite one has no written form; an expression is read as the expression in
which all constants are the ones that are read (`Expr.readsAs`).
-/

namespace TraceWeave

open Json

theorem Ty.ofName?_text : ∀ t ∈ Ty.plain, Ty.ofName? t.text = some t := by decide

theorem Ty.readsBack (t : Ty) : ReadsBack Ty.ofJson? t.toJson t := by
  have hplain : ∀ t ∈ Ty.plain, ReadsBack Ty.ofJson? (.string t.text) t := fun t ht =>
    .string fun levels => by rw [Ty.ofJson?, Ty.ofName?_text t ht]
  induction t with
  | ref name => exact .variant (.string name) fun levels _ => rfl
  | array element ih => exact ih.wrap fun _ => rfl
  | _ => exact hplain _ (by decide)

/-! ## Constants -/

/-- A constant of a float type. -/
def Value.isFloat : Value → Bool
  | .float _ | .double _ => true
  | _ => false

variable (floats : FloatForm)

theorem Value.readsBack {v : Value} (h : v.isFloat = false) :
    ReadsBack Value.ofJson? (v.toJson floats) v := by
  cases v with
  | int n =>
    have hn : ReadsBack (fun _ => int32?) (ofInt n.toInt) n :=
      ⟨wellFormed_ofInt _, fun _ _ => int32?_ofInt n⟩
    exact hn.wrap fun _ => rfl
  | long n =>
    have hn : ReadsBack (fun _ => int64?) (ofInt n.toInt) n :=
      ⟨wellFormed_ofInt _, fun _ _ => int64?_ofInt n⟩
    exact hn.wrap fun _ => rfl
  | float x => cases h
  | double x => cases h
  | bool b => exact .variant (.bool b) fun levels _ => rfl
  | char c =>
    have hc : ReadsBack (fun _ => char?) (.string c.toString) c := .string fun _ => char?_string c
    exact hc.wrap fun _ => rfl
  | str s => exact .variant (.string s) fun levels _ => rfl
  | null => exact .string fun levels => by rw [Value.ofJson?]

/-! ## Names and operators -/

theorem Local.readsBack (x : Local) : ReadsBack Local.ofJson? x.toJson x := by
  have hty := x.ty.readsBack
  refine .record ⟨.string _, hty.wellFormed⟩ fun levels ⟨_, hdepth⟩ => ?_
  change ((Ty.ofJson? levels x.ty.toJson).bind fun ty => some (Local.mk x.name ty)) = _
  rw [hty.read_eq levels hdepth]
  rfl

theorem FieldRef.readsBack (f : FieldRef) : ReadsBack FieldRef.ofJson? f.toJson f := by
  have hty := f.ty.readsBack
  refine .record ⟨.string _, .string _, hty.wellFormed⟩ fun levels ⟨_, _, hdepth⟩ => ?_
  change ((Ty.ofJson? levels f.ty.toJson).bind fun ty => some (FieldRef.mk f.owner f.name ty)) = _
  rw [hty.read_eq levels hdepth]
  rfl

theorem Callee.readsBack (c : Callee) : ReadsBack Callee.ofJson? c.toJson c := by
  have hty := c.returnType.readsBack
  refine .record ⟨.string _, .string _, hty.wellFormed⟩ fun levels ⟨_, _, hdepth⟩ => ?_
  change ((Ty.ofJson? levels c.returnType.toJson).bind fun returnType =>
    some (Callee.mk c.owner c.method returnType)) = _
  rw [hty.read_eq levels hdepth]
  rfl

theorem BinaryOp.readsBack (op : BinaryOp) : ReadsBack BinaryOp.ofJson? (.string op.name) op :=
  .string fun levels => by cases op <;> rfl

theorem UnaryOp.readsBack (op : UnaryOp) : ReadsBack UnaryOp.ofJson? (.string op.name) op :=
  .string fun levels => by cases op <;> rfl

theorem Source.readsBack (s : Source) : ReadsBack Source.ofJson? (.string s.name) s :=
  .string fun levels => by cases s <;> rfl

/-! ## Expressions -/

namespace Expr

variable {f : Value → Option Value}

theorem toJsonAll_eq_map (args : List Expr) :
    toJsonAll floats args = args.map (toJson floats) := by
  induction args with
  | nil => rfl
  | cons e rest ih => rw [toJsonAll, ih, List.map_cons]

theorem mem_literalsOf {args : List Expr} {e : Expr} (he : e ∈ args) {v : Value}
    (hv : v ∈ e.literals) : v ∈ literalsOf args := by
  rw [literalsOf_eq_flatMap]
  exact List.mem_flatMap.2 ⟨e, he, hv⟩

/-- Arguments are read as a list. -/
theorem readsAs_args {args : List Expr}
    (h : ∀ e ∈ args, ReadsAs Expr.ofJson? (e.toJson floats) (e.traverse f)) :
    ReadsAs (list? Expr.ofJson?) (.array (toJsonAll floats args)) (args.mapM (traverse f)) :=
  toJsonAll_eq_map floats args ▸ .array h

/-- An expression is read as the expression with the constants that are read. -/
theorem readsAs (e : Expr)
    (h : ∀ v ∈ e.literals, ReadsAs Value.ofJson? (v.toJson floats) (f v)) :
    ReadsAs Expr.ofJson? (e.toJson floats) (e.traverse f) := by
  induction e with
  | value v => exact (h v List.mem_cons_self).wrap fun _ => rfl
  | var x => exact x.readsBack.wrap fun _ => rfl
  | unary op e ih =>
    have hop := op.readsBack
    have he := ih h
    refine .variant (wellFormed_record ⟨hop.wellFormed, he.wellFormed⟩) fun levels hlevels => ?_
    obtain ⟨k, rfl, hdop, hde⟩ := depth_record_le.1 hlevels
    change ((UnaryOp.ofJson? k (.string op.name)).bind fun op =>
      (Expr.ofJson? k (e.toJson floats)).bind fun e => some (Expr.unary op e)) = _
    rw [hop.read_eq k hdop, he.read_eq k hde, traverse]
    rfl
  | binary op l r ihl ihr =>
    rw [literals, List.forall_mem_append] at h
    have hop := op.readsBack
    have hl := ihl h.1
    have hr := ihr h.2
    refine .variant (wellFormed_record ⟨hop.wellFormed, hl.wellFormed, hr.wellFormed⟩)
      fun levels hlevels => ?_
    obtain ⟨k, rfl, hdop, hdl, hdr⟩ := depth_record_le.1 hlevels
    change ((BinaryOp.ofJson? k (.string op.name)).bind fun op =>
      (Expr.ofJson? k (l.toJson floats)).bind fun l =>
        (Expr.ofJson? k (r.toJson floats)).bind fun r => some (Expr.binary op l r)) = _
    rw [hop.read_eq k hdop, hl.read_eq k hdl, hr.read_eq k hdr, traverse]
    rfl
  | call callee args ih =>
    have hcallee := callee.readsBack
    have hargs := readsAs_args floats fun e he => ih e he fun v hv => h v (mem_literalsOf he hv)
    refine .variant (wellFormed_record ⟨hcallee.wellFormed, hargs.wellFormed⟩)
      fun levels hlevels => ?_
    obtain ⟨k, rfl, hdcallee, hdargs⟩ := depth_record_le.1 hlevels
    have hread := hargs.read_eq k hdargs
    -- the reader of a call opens the array of arguments itself
    obtain ⟨n, rfl, -⟩ := depth_array_le.1 hdargs
    change ((Callee.ofJson? (n + 1) callee.toJson).bind fun callee =>
      (list? Expr.ofJson? (n + 1) (.array (toJsonAll floats args))).bind fun args =>
        some (Expr.call callee args)) = _
    rw [hcallee.read_eq _ hdcallee, hread, traverse, traverseAll_eq_mapM]
    rfl
  | field f => exact f.readsBack.wrap fun _ => rfl
  | unmapped description ty =>
    have hty := ty.readsBack
    refine .variant (wellFormed_record ⟨.string _, hty.wellFormed⟩) fun levels hlevels => ?_
    obtain ⟨k, rfl, -, hdepth⟩ := depth_record_le.1 hlevels
    change ((Ty.ofJson? k ty.toJson).bind fun ty => some (Expr.unmapped description ty)) = _
    rw [hty.read_eq k hdepth]
    rfl

end Expr

/-! ## Probes -/

namespace Probe

theorem wellFormed_numberJson (n : UInt32) : (numberJson n).WellFormed := wellFormed_ofInt _

theorem uint32?_numberJson (n : UInt32) : (numberJson n).uint32? = some n := uint32?_ofNat n

theorem readsBack (p : Probe) : ReadsBack Probe.ofJson? p.toJson p := by
  have hn := wellFormed_numberJson
  cases p with
  | lineReached file line =>
    refine .variant (wellFormed_record ⟨.string _, hn _⟩) fun levels hlevels => ?_
    obtain ⟨k, rfl, -⟩ := depth_record_le.1 hlevels
    change ((numberJson line).uint32?.bind fun line => some (Probe.lineReached file line)) = _
    rw [uint32?_numberJson]
    rfl
  | branchReached file line index =>
    refine .variant (wellFormed_record ⟨.string _, hn _, hn _⟩) fun levels hlevels => ?_
    obtain ⟨k, rfl, -⟩ := depth_record_le.1 hlevels
    change ((numberJson line).uint32?.bind fun line => (numberJson index).uint32?.bind fun index =>
      some (Probe.branchReached file line index)) = _
    rw [uint32?_numberJson, uint32?_numberJson]
    rfl
  | condition file line index left op right =>
    have hop := op.readsBack
    refine .variant
      (wellFormed_record ⟨.string _, hn _, hn _, .string _, hop.wellFormed, .string _⟩)
      fun levels hlevels => ?_
    obtain ⟨k, rfl, -, -, -, -, hdop, -⟩ := depth_record_le.1 hlevels
    change ((numberJson line).uint32?.bind fun line => (numberJson index).uint32?.bind fun index =>
      (BinaryOp.ofJson? k (.string op.name)).bind fun op =>
        some (Probe.condition file line index left op right)) = _
    rw [uint32?_numberJson, uint32?_numberJson, hop.read_eq k hdop]
    rfl
  | capture file line x source =>
    have hx := x.readsBack
    have hsource := source.readsBack
    refine .variant (wellFormed_record ⟨.string _, hn _, hx.wellFormed, hsource.wellFormed⟩)
      fun levels hlevels => ?_
    obtain ⟨k, rfl, -, -, hdx, hdsource⟩ := depth_record_le.1 hlevels
    change ((numberJson line).uint32?.bind fun line => (Local.ofJson? k x.toJson).bind fun x =>
      (Source.ofJson? k (.string source.name)).bind fun source =>
        some (Probe.capture file line x source)) = _
    rw [uint32?_numberJson, hx.read_eq k hdx, hsource.read_eq k hdsource]
    rfl
  | fieldRead file line field =>
    refine .variant (wellFormed_record ⟨.string _, hn _, .string _⟩) fun levels hlevels => ?_
    obtain ⟨k, rfl, -⟩ := depth_record_le.1 hlevels
    change ((numberJson line).uint32?.bind fun line => some (Probe.fieldRead file line field)) = _
    rw [uint32?_numberJson]
    rfl
  | testStart test =>
    refine .variant (wellFormed_record (.string test)) fun levels hlevels => ?_
    obtain ⟨k, rfl, -⟩ := depth_record_le.1 hlevels
    rfl
  | testEnd test =>
    refine .variant (wellFormed_record (.string test)) fun levels hlevels => ?_
    obtain ⟨k, rfl, -⟩ := depth_record_le.1 hlevels
    rfl

end Probe

end TraceWeave
