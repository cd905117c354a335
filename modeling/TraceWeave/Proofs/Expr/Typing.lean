import TraceWeave.Proofs.Machine.Checked
import TraceWeave.Proofs.Value.Conforms

/-!
# Static types of expressions

The machine does not check types.  What an expression evaluates to conforms to its static type as
long as everything it reads does: its variables, its static fields and the results of its calls.
`Expr.ReadsConform` says this along an evaluation, and `Expr.eval_conforms` is the result.  An
expression that puts an operator on operands of the wrong types has no value at all.
-/

namespace TraceWeave

namespace Expr

mutual

/-- Every operator stands on operands of types that it accepts. -/
def WellTyped : Expr → Prop
  | .unary op e => e.WellTyped ∧ op.Accepts e.ty
  | .binary op l r => l.WellTyped ∧ r.WellTyped ∧ op.Accepts l.ty r.ty
  | .call _ args => AllWellTyped args
  | .value _ | .var _ | .field _ | .unmapped _ _ => True

/-- All expressions of a list are well typed. -/
def AllWellTyped : List Expr → Prop
  | [] => True
  | e :: rest => e.WellTyped ∧ AllWellTyped rest

end

theorem ty_unary (op : UnaryOp) (e : Expr) : (unary op e).ty = op.resultTy e.ty := by
  cases op <;> rfl

theorem ty_binary (op : BinaryOp) (l r : Expr) :
    (binary op l r).ty = op.resultTy l.ty r.ty := rfl

section

variable (call : Call) (frame : Frame)

mutual

/-- What the evaluation of an expression from a state reads conforms to the types at its nodes. -/
def ReadsConform : Expr → MachineState → Prop
  | .value _, _ => True
  | .var x, _ => ∀ v, frame.locals.get? x.name = some v → v.Conforms x.ty
  | .unary _ e, s => e.ReadsConform s
  | .binary _ l r, s =>
    l.ReadsConform s ∧ ∀ v t, l.eval call frame s = .ok v t → r.ReadsConform t
  | .call callee args, s =>
    AllReadsConform args s ∧
      ∀ values t, evalAll call frame args s = .ok values t →
        ∀ v u, call callee values t = .ok (some v) u → v.Conforms callee.returnType
  | .field f, s => ∀ v, s.statics.get? (f.owner, f.name) = some v → v.Conforms f.ty
  | .unmapped _ _, _ => True

/-- What the evaluation of expressions, one after the other, reads conforms to the types at their
nodes. -/
def AllReadsConform : List Expr → MachineState → Prop
  | [], _ => True
  | e :: rest, s =>
    e.ReadsConform s ∧ ∀ v t, e.eval call frame s = .ok v t → AllReadsConform rest t

end

end

variable {call : Call} {frame : Frame} {s t : MachineState} {v : Value}

theorem allWellTyped_of_evalAll {args : List Expr} {values : List Value}
    (ih : ∀ e ∈ args, ∀ {s t v}, e.ReadsConform call frame s → e.eval call frame s = .ok v t →
      e.WellTyped ∧ v.Conforms e.ty)
    (hreads : AllReadsConform call frame args s)
    (h : evalAll call frame args s = .ok values t) : AllWellTyped args := by
  induction args generalizing s t values with
  | nil => trivial
  | cons e rest ihrest =>
    rw [evalAll] at h
    obtain ⟨v, u, he, h⟩ := bind_eq_ok.1 h
    obtain ⟨_, _, hrest, -⟩ := bind_eq_ok.1 h
    have htail := ihrest (fun d hd => ih d (by simp [hd])) (hreads.2 v u he) hrest
    exact ⟨(ih e (by simp) hreads.1 he).1, htail⟩

/-- An expression whose reads conform to their types has a value only if it is well typed, and then
the value conforms to its static type. -/
theorem eval_conforms (e : Expr) (hreads : e.ReadsConform call frame s)
    (h : e.eval call frame s = .ok v t) : e.WellTyped ∧ v.Conforms e.ty := by
  induction e generalizing s t v with
  | value c =>
    rw [eval] at h
    cases h
    exact ⟨trivial, c.conforms_ty⟩
  | var x =>
    rw [eval] at h
    cases hx : frame.locals.get? x.name with
    | none =>
      rw [hx] at h
      cases h
    | some w =>
      rw [hx] at h
      cases h
      exact ⟨trivial, hreads v hx⟩
  | unary op e ih =>
    rw [eval] at h
    obtain ⟨w, u, he, hop⟩ := bind_eq_ok.1 h
    obtain ⟨hwell, hw⟩ := ih hreads he
    obtain ⟨haccepts, hv⟩ := Value.unary_conforms hw (Frame.operator_eq_ok.1 hop).1
    exact ⟨⟨hwell, haccepts⟩, by rwa [ty_unary]⟩
  | binary op l r ihl ihr =>
    rw [eval] at h
    obtain ⟨x, u, hl, h⟩ := bind_eq_ok.1 h
    obtain ⟨y, w, hr, hop⟩ := bind_eq_ok.1 h
    obtain ⟨hwelll, hx⟩ := ihl hreads.1 hl
    obtain ⟨hwellr, hy⟩ := ihr (hreads.2 x u hl) hr
    obtain ⟨haccepts, hv⟩ := Value.binary_conforms hx hy (Frame.operator_eq_ok.1 hop).1
    exact ⟨⟨hwelll, hwellr, haccepts⟩, by rwa [ty_binary]⟩
  | call callee args ih =>
    rw [eval] at h
    obtain ⟨values, u, hargs, h⟩ := bind_eq_ok.1 h
    obtain ⟨result, w, hcall, h⟩ := bind_eq_ok.1 h
    have hwell := allWellTyped_of_evalAll (fun e he _ _ _ => ih e he) hreads.1 hargs
    cases result with
    | none => cases h
    | some x =>
      cases h
      exact ⟨hwell, hreads.2 values u hargs v _ hcall⟩
  | field f =>
    rw [eval] at h
    obtain ⟨_, _, hget, h⟩ := bind_eq_ok.1 h
    cases hget
    cases hf : s.statics.get? (f.owner, f.name) with
    | none =>
      rw [hf] at h
      cases h
    | some w =>
      rw [hf] at h
      cases h
      exact ⟨trivial, hreads v hf⟩
  | unmapped description ty =>
    rw [eval] at h
    cases h

/-- The sum of a character and the product of a negated field and a 64-bit result is a 64-bit
number. -/
theorem eval_conforms_sum :
    let call : Call := fun _ _ => return some (.long 5)
    let frame : Frame := ⟨"run", .ofList [("letter", .char 'a')]⟩
    let s : MachineState := { statics := .ofList [(("Store", "total"), .int 4)] }
    let e : Expr := .binary .add (.var ⟨"letter", .char⟩)
      (.binary .mul (.unary .neg (.field ⟨"Store", "total", .short⟩))
        (.call ⟨"Store", "size", .long⟩ [.value (.bool true)]))
    e.ReadsConform call frame s ∧ e.eval call frame s = .ok (.long 77) s ∧
      e.WellTyped ∧ (Value.long 77).Conforms .long := by
  intro call frame s e
  have hreads : e.ReadsConform call frame s := by
    refine ⟨fun v hv => ?_, fun v t ht => ⟨fun v hv => ?_, fun v t ht => ⟨⟨trivial, ?_⟩, ?_⟩⟩⟩
    · cases hv
      exact .char 'a'
    · cases ht
      cases hv
      exact .short 4
    · exact fun _ _ _ => trivial
    · intro values t hvalues v u hv
      cases hv
      exact .long 5
  have heval : e.eval call frame s = .ok (.long 77) s := rfl
  exact ⟨hreads, heval, e.eval_conforms hreads heval⟩

end Expr

end TraceWeave
