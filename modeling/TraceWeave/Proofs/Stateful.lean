import Mathlib.Tactic.Common

/-!
# Computations with a state that can fail

Weaving and the machine both compute in `EStateM`.  These are the inversion lemmas for what such a
computation did: a sequence succeeds exactly if both of its parts do, one after the other.
-/

namespace TraceWeave

variable {ε σ α β : Type}

theorem bind_eq_ok {x : EStateM ε σ α} {f : α → EStateM ε σ β} {s t : σ} {b : β} :
    (x >>= f) s = .ok b t ↔ ∃ a u, x s = .ok a u ∧ f a u = .ok b t := by
  change (EStateM.bind x f) s = _ ↔ _
  rw [EStateM.bind]
  cases x s <;> simp

theorem get_bind_eq_ok {f : σ → EStateM ε σ β} {s t : σ} {b : β} :
    (get >>= f) s = .ok b t ↔ f s s = .ok b t := Iff.rfl

theorem bind_of_ok {x : EStateM ε σ α} (f : α → EStateM ε σ β) {s u : σ} {a : α}
    (h : x s = .ok a u) : (x >>= f) s = f a u := by
  change (EStateM.bind x f) s = _
  rw [EStateM.bind, h]

theorem bind_of_error {x : EStateM ε σ α} (f : α → EStateM ε σ β) {s u : σ} {e : ε}
    (h : x s = .error e u) : (x >>= f) s = .error e u := by
  change (EStateM.bind x f) s = _
  rw [EStateM.bind, h]

@[simp] theorem pure_apply (a : α) (s : σ) : (pure a : EStateM ε σ α) s = .ok a s := rfl

@[simp] theorem get_apply (s : σ) : (get : EStateM ε σ σ) s = .ok s s := rfl

@[simp] theorem throw_apply (e : ε) (s : σ) : (throw e : EStateM ε σ α) s = .error e s := rfl

end TraceWeave
