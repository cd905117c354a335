import TraceWeave.Console.ClassStore
import TraceWeave.Proofs.ClassFile.Terms

/-!
# Reading class files back

A class is read back from the text that is written for it (`ClassStore.ofFileText?_textOf_binary`),
woven bodies included.  Two things can stand in the way: a float constant, which may have no written
form, and a document that nests more deeply than readers allow.
-/

namespace TraceWeave

open Json

variable (floats : FloatForm) {f : Value → Option Value}

theorem Label.wellFormed_toJson (l : Label) : l.toJson.WellFormed := wellFormed_ofInt _

theorem Label.ofJson?_toJson (l : Label) : Label.ofJson? l.toJson = some l := by
  rw [ofJson?, toJson, uint32?_ofNat]
  rfl

theorem Place.readsBack (p : Place) : ReadsBack Place.ofJson? p.toJson p := by
  cases p with
  | var x => exact x.readsBack.wrap fun _ => rfl
  | field f => exact f.readsBack.wrap fun _ => rfl

theorem Expr.toJson_ne_null (e : Expr) : e.toJson floats ≠ .null := by
  cases e <;> exact Json.noConfusion

theorem Value.toJson_ne_null (v : Value) : v.toJson floats ≠ .null := by
  cases v <;> exact Json.noConfusion

namespace Operation

theorem readsAs (op : Operation)
    (h : ∀ v ∈ op.literals, ReadsAs Value.ofJson? (v.toJson floats) (f v)) :
    ReadsAs Operation.ofJson? (op.toJson floats) (op.traverse f) := by
  cases op with
  | assign target value =>
    have htarget := target.readsBack
    have hvalue := value.readsAs floats h
    refine .variant (wellFormed_record ⟨htarget.wellFormed, hvalue.wellFormed⟩)
      fun levels hlevels => ?_
    obtain ⟨k, rfl, hdtarget, hdvalue⟩ := depth_record_le.1 hlevels
    change ((Place.ofJson? k target.toJson).bind fun target =>
      (Expr.ofJson? k (value.toJson floats)).bind fun value =>
        some (Operation.assign target value)) = _
    rw [htarget.read_eq k hdtarget, hvalue.read_eq k hdvalue]
    rfl
  | branch condition target =>
    have hcondition := condition.readsAs floats h
    refine .variant (wellFormed_record ⟨hcondition.wellFormed, target.wellFormed_toJson⟩)
      fun levels hlevels => ?_
    obtain ⟨k, rfl, hdepth, -⟩ := depth_record_le.1 hlevels
    change ((Expr.ofJson? k (condition.toJson floats)).bind fun condition =>
      (Label.ofJson? target.toJson).bind fun target =>
        some (Operation.branch condition target)) = _
    rw [hcondition.read_eq k hdepth, target.ofJson?_toJson]
    rfl
  | goto target =>
    refine .variant (wellFormed_record target.wellFormed_toJson) fun levels hlevels => ?_
    obtain ⟨k, rfl, -⟩ := depth_record_le.1 hlevels
    change ((Label.ofJson? target.toJson).bind fun target => some (Operation.goto target)) = _
    rw [target.ofJson?_toJson]
    rfl
  | invoke callee args =>
    have hcallee := callee.readsBack
    have hargs := Expr.readsAs_args floats fun e he =>
      e.readsAs floats fun v hv => h v (Expr.mem_literalsOf he hv)
    refine .variant (wellFormed_record ⟨hcallee.wellFormed, hargs.wellFormed⟩)
      fun levels hlevels => ?_
    obtain ⟨k, rfl, hdcallee, hdargs⟩ := depth_record_le.1 hlevels
    change ((Callee.ofJson? k callee.toJson).bind fun callee =>
      (list? Expr.ofJson? k (.array (Expr.toJsonAll floats args))).bind fun args =>
        some (Operation.invoke callee args)) = _
    rw [hcallee.read_eq k hdcallee, hargs.read_eq k hdargs]
    rfl
  | ret value =>
    have hvalue : ∀ e ∈ value, ReadsAs Expr.ofJson? (e.toJson floats) (e.traverse f) ∧
        e.toJson floats ≠ .null := by
      rintro e rfl
      exact ⟨e.readsAs floats h, e.toJson_ne_null floats⟩
    cases value <;> exact (ReadsAs.nullable hvalue).wrap fun _ => rfl
  | probe p => exact p.readsBack.wrap fun _ => rfl
  | nop => exact .string fun levels => by cases levels <;> rfl

end Operation

theorem Instr.readsAs (i : Instr)
    (h : ∀ v ∈ i.op.literals, ReadsAs Value.ofJson? (v.toJson floats) (f v)) :
    ReadsAs Instr.ofJson? (i.toJson floats) (i.traverse f) := by
  have hop := i.op.readsAs floats h
  refine .record ⟨i.label.wellFormed_toJson, wellFormed_ofInt _, hop.wellFormed⟩
    fun levels hlevels => ?_
  obtain ⟨-, -, hdepth⟩ := hlevels
  change ((Label.ofJson? i.label.toJson).bind fun label =>
    (ofInt i.line.toInt).int32?.bind fun line =>
      (Operation.ofJson? levels (i.op.toJson floats)).bind fun op =>
        some (Instr.mk label line op)) = _
  rw [i.label.ofJson?_toJson, int32?_ofInt, hop.read_eq levels hdepth]
  rfl

theorem Body.readsAs (b : Body)
    (h : ∀ v ∈ b.literals, ReadsAs Value.ofJson? (v.toJson floats) (f v)) :
    ReadsAs Body.ofJson? (b.toJson floats) (b.traverse f) := by
  have hlocals := ReadsBack.array fun x (_ : x ∈ b.locals) => x.readsBack
  have hinstrs := ReadsAs.array fun i (hi : i ∈ b.instrs) => i.readsAs floats
    fun v hv => h v (List.mem_flatMap.2 ⟨i, hi, hv⟩)
  refine .record ⟨hlocals.wellFormed, hinstrs.wellFormed⟩ fun levels hlevels => ?_
  obtain ⟨hdlocals, hdinstrs⟩ := hlevels
  change ((list? Local.ofJson? levels (.array (b.locals.map Local.toJson))).bind fun locals =>
    (list? Instr.ofJson? levels (.array (b.instrs.map (Instr.toJson floats)))).bind fun instrs =>
      some (Body.mk locals instrs)) = _
  rw [hlocals.read_eq levels hdlocals, hinstrs.read_eq levels hdinstrs]
  rfl

theorem Method.readsAs (m : Method)
    (h : ∀ v ∈ m.body.literals, ReadsAs Value.ofJson? (v.toJson floats) (f v)) :
    ReadsAs Method.ofJson? (m.toJson floats) (m.traverse f) := by
  have hparams := ReadsBack.array fun x (_ : x ∈ m.params) => x.readsBack
  have hty := m.returnType.readsBack
  have hbody := m.body.readsAs floats h
  refine .record ⟨.string _, hparams.wellFormed, hty.wellFormed, hbody.wellFormed⟩
    fun levels hlevels => ?_
  obtain ⟨-, hdparams, hdty, hdbody⟩ := hlevels
  change ((list? Local.ofJson? levels (.array (m.params.map Local.toJson))).bind fun params =>
    (Ty.ofJson? levels m.returnType.toJson).bind fun returnType =>
      (Body.ofJson? levels (m.body.toJson floats)).bind fun body =>
        some (Method.mk m.name params returnType body)) = _
  rw [hparams.read_eq levels hdparams, hty.read_eq levels hdty, hbody.read_eq levels hdbody]
  rfl

theorem FieldDecl.readsAs (d : FieldDecl)
    (h : ∀ v ∈ d.initial, ReadsAs Value.ofJson? (v.toJson floats) (f v)) :
    ReadsAs FieldDecl.ofJson? (d.toJson floats) (d.traverse f) := by
  have hty := d.ty.readsBack
  have hinitial := ReadsAs.nullable fun v (hv : v ∈ d.initial) => ⟨h v hv, v.toJson_ne_null floats⟩
  refine .record ⟨.string _, hty.wellFormed, hinitial.wellFormed⟩
    fun levels hlevels => ?_
  obtain ⟨-, hdty, hdinitial⟩ := hlevels
  change ((Ty.ofJson? levels d.ty.toJson).bind fun ty =>
    (nullable? (Value.ofJson? levels) ((d.initial.map (Value.toJson floats)).getD .null)).bind
      fun initial => some (FieldDecl.mk d.name ty initial)) = _
  rw [hty.read_eq levels hdty, hinitial.read_eq levels hdinitial]
  rfl

/-- A class is read as the class with the constants that are read. -/
theorem Class.readsAs (c : Class)
    (h : ∀ v ∈ c.literals, ReadsAs Value.ofJson? (v.toJson floats) (f v)) :
    ReadsAs Class.ofJson? (c.toJson floats) (c.traverse f) := by
  rw [literals, List.forall_mem_append] at h
  have hfile : ReadsBack (fun _ => nullable? text?) ((c.sourceFile.map Json.string).getD .null)
      c.sourceFile := by
    cases c.sourceFile with
    | none => exact ⟨.null, fun _ _ => rfl⟩
    | some s => exact .string fun _ => rfl
  have hfields := ReadsAs.array fun d (hd : d ∈ c.fields) => d.readsAs floats
    fun v hv => h.1 v (List.mem_flatMap.2 ⟨d, hd, Option.mem_toList.2 hv⟩)
  have hmethods := ReadsAs.array fun m (hm : m ∈ c.methods) => m.readsAs floats
    fun v hv => h.2 v (List.mem_flatMap.2 ⟨m, hm, hv⟩)
  refine .record ⟨.string _, hfile.wellFormed, hfields.wellFormed, hmethods.wellFormed⟩
    fun levels hlevels => ?_
  obtain ⟨-, hdfile, hdfields, hdmethods⟩ := hlevels
  change ((nullable? text? ((c.sourceFile.map Json.string).getD .null)).bind fun sourceFile =>
    (list? FieldDecl.ofJson? levels (.array (c.fields.map (FieldDecl.toJson floats)))).bind
      fun fields =>
        (list? Method.ofJson? levels (.array (c.methods.map (Method.toJson floats)))).bind
          fun methods => some (Class.mk c.name sourceFile fields methods)) = _
  rw [hfile.read_eq levels hdfile, hfields.read_eq levels hdfields,
    hmethods.read_eq levels hdmethods]
  rfl

theorem Class.readsBack (c : Class) (h : ∀ v ∈ c.literals, v.isFloat = false) :
    ReadsBack Class.ofJson? (c.toJson floats) c := by
  have hread := c.readsAs floats fun v hv => Value.readsBack floats (h v hv)
  rwa [c.traverse_some] at hread

namespace ClassStore

/-- A class without float constants is read back from the text that is written for it, unless its
document nests more deeply than readers allow. -/
theorem ofFileText?_textOf_binary (c : Class) (hfloats : ∀ v ∈ c.literals, v.isFloat = false)
    (hdepth : (c.toJson .file).depth ≤ maxNesting) :
    Class.ofFileText? (textOf .binary c) = some c := by
  have hread := c.readsBack .file hfloats
  rw [textOf, Class.fileText, Class.ofFileText?, parse?_pretty hread.wellFormed, Option.bind_some,
    hread.read_eq maxNesting hdepth]

/-- A class with a woven method, with a null as initial value, and with characters that have to be
escaped. -/
def wovenClass : Class where
  name := "shop.Cart"
  fields :=
    [{ name := "owner", ty := .string, initial := some .null },
      { name := "sizes", ty := .array (.array .long) }]
  methods :=
    [{ name := "total", params := [⟨"c", .char⟩], returnType := .long,
       body :=
        { locals := [⟨"t$0", .boolean⟩],
          instrs :=
            [{ label := ⟨4⟩, op := .probe (.lineReached "Cart.java" 7) },
              { label := ⟨0⟩, line := 7,
                op := .assign (.var ⟨"t$0", .boolean⟩)
                  (.binary .lt (.call ⟨"shop.Cart", "size", .int⟩
                    [.value (.str "a\"\\\n\x01é"), .unary .neg (.value (.long (-3)))])
                    (.value (.char '\x7f'))) },
              { label := ⟨5⟩, line := -1,
                op := .probe (.capture "Cart.java" 7 ⟨"t$0", .boolean⟩ .variable) },
              { label := ⟨1⟩, line := 7,
                op := .branch (.var ⟨"t$0", .boolean⟩) ⟨2⟩ },
              { label := ⟨2⟩, line := 9, op := .ret none }] } }]

/-- The class with a woven method is read back. -/
theorem ofFileText?_textOf_wovenClass :
    (∀ v ∈ wovenClass.literals, v.isFloat = false) ∧
      (wovenClass.toJson .file).depth ≤ maxNesting ∧
      Class.ofFileText? (textOf .binary wovenClass) = some wovenClass :=
  have hfloats : ∀ v ∈ wovenClass.literals, v.isFloat = false := by decide
  have hdepth : (wovenClass.toJson .file).depth ≤ maxNesting := by decide
  ⟨hfloats, hdepth, ofFileText?_textOf_binary wovenClass hfloats hdepth⟩

end ClassStore

end TraceWeave
