import TraceWeave.Expr.Basic

/-!
# Induction on expressions

Expressions nest through the argument lists of calls, so the recursor that Lean generates speaks of
lists too.  `Expr.induction` is the principle that proofs use: at a call, the statement holds for
every argument.
-/

namespace TraceWeave

namespace Expr

/-- Induction on expressions, with a hypothesis for every argument of a call. -/
@[induction_eliminator]
theorem induction {motive : Expr → Prop}
    (value : ∀ v, motive (.value v))
    (var : ∀ x, motive (.var x))
    (unary : ∀ op e, motive e → motive (.unary op e))
    (binary : ∀ op l r, motive l → motive r → motive (.binary op l r))
    (call : ∀ callee args, (∀ e ∈ args, motive e) → motive (.call callee args))
    (field : ∀ f, motive (.field f))
    (unmapped : ∀ description ty, motive (.unmapped description ty)) (e : Expr) : motive e :=
  @Expr.rec motive (fun args => ∀ e ∈ args, motive e) value var unary binary call field unmapped
    (fun _ h => absurd h List.not_mem_nil)
    (fun _ _ he hrest _ h => (List.mem_cons.1 h).elim (fun heq => heq ▸ he) (hrest _)) e

end Expr

end TraceWeave
