import TraceWeave.Proofs.Machine.Checked
import Mathlib.Order.Filter.AtTopBot.Basic

/-!
# Following runs under growing budgets

A woven program executes more instructions than the original, so the two are compared without regard
to the budget: `Follows R x y` says that whatever `x` does under some limit without being stopped,
`y` does under every limit that is large enough.  States are compared by what a program can see of
them (`MachineState.Alike`), results by `R`, and faults only by the fact that they are faults.

`Follows` composes in sequence (`Follows.bind`) and from one program to the next (`Follows.trans`),
so a simulation is put together from the pieces of the machine.
-/

open Filter

namespace TraceWeave

/-- The states agree on everything that a program can see. -/
structure MachineState.Alike (s t : MachineState) : Prop where
  statics : t.statics = s.statics
  calls : t.calls = s.calls
  hostCalls : t.hostCalls = s.hostCalls
  initialized : t.initialized = s.initialized

namespace MachineState.Alike

variable {s t u : MachineState}

theorem refl (s : MachineState) : s.Alike s := ⟨rfl, rfl, rfl, rfl⟩

theorem symm (h : s.Alike t) : t.Alike s :=
  ⟨h.statics.symm, h.calls.symm, h.hostCalls.symm, h.initialized.symm⟩

theorem trans (h : s.Alike t) (h' : t.Alike u) : s.Alike u :=
  ⟨h'.statics.trans h.statics, h'.calls.trans h.calls, h'.hostCalls.trans h.hostCalls,
    h'.initialized.trans h.initialized⟩

end MachineState.Alike

variable {α β γ δ : Type}

/-- Both results are values that `R` relates, or both are faults, the second one not a stop; and the
states are alike. -/
inductive ResultsAlike (R : α → β → Prop) :
    EStateM.Result Fault MachineState α → EStateM.Result Fault MachineState β → Prop
  | ok {a : α} {b : β} {s t : MachineState} (h : R a b) (hs : s.Alike t) :
      ResultsAlike R (.ok a s) (.ok b t)
  | error {e f : Fault} {s t : MachineState} (hf : ¬ f.IsStop) (hs : s.Alike t) :
      ResultsAlike R (.error e s) (.error f t)

theorem ResultsAlike.not_stops {R : α → β → Prop} {r : EStateM.Result Fault MachineState α}
    {r' : EStateM.Result Fault MachineState β} (h : ResultsAlike R r r') : ¬ Stops r' := by
  rintro ⟨f, t, rfl, hf⟩
  cases h with
  | error hnot _ => exact hnot hf

/-- Whatever the first computation does under some limit without being stopped, the second one does
under every limit that is large enough. -/
def Follows (R : α → β → Prop) (x : Nat → MachineM α) (y : Nat → MachineM β) : Prop :=
  ∀ limit s s', s.Alike s' → Stops (x limit s) ∨
    ∃ r, ResultsAlike R (x limit s) r ∧ ∀ᶠ limit' in atTop, y limit' s' = r

theorem countStep_of_le {limit : Nat} {s : MachineState} (frame : Frame) (h : limit ≤ s.steps) :
    countStep limit frame s = .error ⟨frame.signature, .stepLimit limit⟩ s := by
  rw [countStep, bind_of_ok _ (get_apply s), if_pos h]
  rfl

theorem countStep_of_lt {limit : Nat} {s : MachineState} (frame : Frame) (h : s.steps < limit) :
    countStep limit frame s = .ok () { s with steps := s.steps + 1 } := by
  rw [countStep, bind_of_ok _ (get_apply s), if_neg (Nat.not_le.2 h)]
  rfl

namespace Follows

variable {R : α → β → Prop} {x : Nat → MachineM α} {y : Nat → MachineM β}

theorem pure {a : α} {b : β} (h : R a b) : Follows R (fun _ => pure a) (fun _ => pure b) :=
  fun _ _ s' hs => .inr ⟨.ok b s', .ok h hs, .of_forall fun _ => rfl⟩

theorem throw {e f : Fault} (h : ∀ limit, f.cause ≠ .stepLimit limit) :
    Follows R (fun _ => throw e) (fun _ => throw f) :=
  fun _ _ s' hs => .inr ⟨.error f s', .error (fun ⟨limit, hlimit⟩ => h limit hlimit) hs,
    .of_forall fun _ => rfl⟩

theorem fail {frame frame' : Frame} {cause cause' : FaultCause}
    (h : ∀ limit, cause' ≠ .stepLimit limit) :
    Follows R (fun _ => frame.fail cause) (fun _ => frame'.fail cause') :=
  .throw h

theorem of_stop (frame : Frame) (n : Nat) (y : Nat → MachineM β) :
    Follows R (fun _ => frame.fail (.stepLimit n)) y :=
  fun _ s _ _ => .inl ⟨_, s, rfl, n, rfl⟩

theorem mono {S : α → β → Prop} (h : Follows R x y) (hRS : ∀ a b, R a b → S a b) :
    Follows S x y := by
  intro limit s s' hs
  rcases h limit s s' hs with hstop | ⟨r, hr, hy⟩
  · exact .inl hstop
  · refine .inr ⟨r, ?_, hy⟩
    revert hr
    generalize x limit s = r₀
    rintro (⟨hab, ht⟩ | ⟨hf, ht⟩)
    · exact .ok (hRS _ _ hab) ht
    · exact .error hf ht

/-- Under large limits the second computation may be replaced by an equal one. -/
theorem congr_right {y' : Nat → MachineM β} (h : Follows R x y)
    (hy : ∀ᶠ limit in atTop, y' limit = y limit) : Follows R x y' := by
  intro limit s s' hs
  rcases h limit s s' hs with hstop | ⟨r, hr, hlimit⟩
  · exact .inl hstop
  · refine .inr ⟨r, hr, ?_⟩
    filter_upwards [hlimit, hy] with limit' hr hy
    rw [hy, hr]

theorem bind {S : γ → δ → Prop} {f : Nat → α → MachineM γ} {g : Nat → β → MachineM δ}
    (h : Follows R x y)
    (hfg : ∀ a b, R a b → Follows S (fun limit => f limit a) (fun limit => g limit b)) :
    Follows S (fun limit => x limit >>= f limit) (fun limit => y limit >>= g limit) := by
  intro limit s s' hs
  show Stops ((x limit >>= f limit) s) ∨ ∃ r, ResultsAlike S ((x limit >>= f limit) s) r ∧
    ∀ᶠ limit' in atTop, (y limit' >>= g limit') s' = r
  rcases h limit s s' hs with ⟨e, t, hx, he⟩ | ⟨r, hr, hy⟩
  · exact .inl ⟨e, t, bind_of_error _ hx, he⟩
  · cases hx : x limit s with
    | ok a t =>
      rw [hx] at hr
      rw [bind_of_ok _ hx]
      cases hr with
      | @ok _ b _ t' hab ht =>
        rcases hfg a b hab limit t t' ht with hstop | ⟨r, hr, hg⟩
        · exact .inl hstop
        · refine .inr ⟨r, hr, ?_⟩
          filter_upwards [hy, hg] with limit' hy hg
          rw [bind_of_ok _ hy, hg]
    | error e t =>
      rw [hx] at hr
      rw [bind_of_error _ hx]
      cases hr with
      | @error _ f _ t' hf ht =>
        refine .inr ⟨.error f t', .error hf ht, ?_⟩
        filter_upwards [hy] with limit' hy
        exact bind_of_error _ hy

/-- What the second computation does first may have no counterpart. -/
theorem bind_right {Q : β → Prop} {S : γ → δ → Prop} {z : Nat → MachineM γ}
    {g : Nat → β → MachineM δ} (h : Follows (fun (_ : Unit) b => Q b) (fun _ => Pure.pure ()) y)
    (hg : ∀ b, Q b → Follows S z fun limit => g limit b) :
    Follows S z (fun limit => y limit >>= g limit) :=
  h.bind fun _ b hb => hg b hb

/-- What the first computation does first may have no counterpart. -/
theorem bind_left {Q : α → Prop} {S : γ → δ → Prop} {f : Nat → α → MachineM γ}
    {z : Nat → MachineM δ} (h : Follows (fun a (_ : Unit) => Q a) x fun _ => Pure.pure ())
    (hf : ∀ a, Q a → Follows S (fun limit => f limit a) z) :
    Follows S (fun limit => x limit >>= f limit) z :=
  h.bind (g := fun limit _ => z limit) fun a _ ha => hf a ha

/-- The value of the first computation is known before the second one runs. -/
theorem pure_left {Q : β → Prop} (h : Follows (fun (_ : Unit) b => Q b) (fun _ => Pure.pure ()) y)
    {a : α} (hR : ∀ b, Q b → R a b) : Follows R (fun _ => Pure.pure a) y := by
  have hbind := h.bind (f := fun _ _ => Pure.pure a) (g := fun _ b => Pure.pure b) (S := R)
    fun _ b hb => .pure (hR b hb)
  simp only [bind_pure] at hbind
  exact hbind

theorem bind_eq {S : γ → δ → Prop} {y : Nat → MachineM α} {f : Nat → α → MachineM γ}
    {g : Nat → α → MachineM δ} (h : Follows Eq x y)
    (hfg : ∀ a, Follows S (fun limit => f limit a) (fun limit => g limit a)) :
    Follows S (fun limit => x limit >>= f limit) (fun limit => y limit >>= g limit) :=
  h.bind fun a _ hab => hab ▸ hfg a

/-- The first computation goes on to what follows from its value alone. -/
theorem map_left {S : β → α → Prop} {x y : Nat → MachineM α} {f : α → β} (h : Follows Eq x y)
    (hS : ∀ a, S (f a) a) : Follows S (fun limit => x limit >>= fun a => Pure.pure (f a)) y := by
  have hbind := h.bind_eq (f := fun _ a => Pure.pure (f a)) (g := fun _ a => Pure.pure a) (S := S)
    fun a => .pure (hS a)
  simp only [bind_pure] at hbind
  exact hbind

theorem trans {S : β → γ → Prop} {T : α → γ → Prop} {z : Nat → MachineM γ}
    (hT : ∀ a b c, R a b → S b c → T a c) (h : Follows R x y) (h' : Follows S y z) :
    Follows T x z := by
  intro limit s s' hs
  rcases h limit s s (.refl s) with hstop | ⟨r, hr, hy⟩
  · exact .inl hstop
  · obtain ⟨limit', hlimit'⟩ := hy.exists
    rcases h' limit' s s' hs with hstop | ⟨r', hr', hz⟩
    · rw [hlimit'] at hstop
      exact absurd hstop hr.not_stops
    · refine .inr ⟨r', ?_, hz⟩
      rw [hlimit'] at hr'
      revert hr hr'
      generalize x limit s = r₀
      rintro (⟨hab, ht⟩ | ⟨hf, ht⟩) (⟨hbc, ht'⟩ | ⟨hf', ht'⟩)
      · exact .ok (hT _ _ _ hab hbc) (ht.trans ht')
      · exact .error hf' (ht.trans ht')

theorem trans_eq {x y z : Nat → MachineM α} (h : Follows Eq x y) (h' : Follows Eq y z) :
    Follows Eq x z :=
  h.trans (fun _ _ _ hab hbc => hab.trans hbc) h'

/-- Reading the state. -/
theorem read {S : γ → δ → Prop} {f : Nat → MachineState → MachineM γ}
    {g : Nat → MachineState → MachineM δ}
    (h : ∀ s s', s.Alike s' → Follows S (fun limit => f limit s) (fun limit => g limit s')) :
    Follows S (fun limit => get >>= f limit) (fun limit => get >>= g limit) :=
  fun limit s s' hs => h s s' hs limit s s' hs

/-- A change of the state that a program cannot see. -/
theorem modify_right {g : MachineState → MachineState} (h : ∀ s, MachineState.Alike s (g s)) :
    Follows (fun (_ : Unit) (_ : PUnit) => True) (fun _ => Pure.pure ()) (fun _ => modify g) :=
  fun _ _ s' hs => .inr ⟨.ok ⟨⟩ (g s'), .ok trivial (hs.trans (h s')), .of_forall fun _ => rfl⟩

/-- The same change of the state on both sides, one that a program cannot see. -/
theorem modify_unseen {g : MachineState → MachineState} (h : ∀ s, MachineState.Alike s (g s)) :
    Follows Eq (fun _ => modify g) (fun _ => modify g) :=
  fun _ s s' hs => .inr ⟨.ok ⟨⟩ (g s'), .ok rfl (((h s).symm.trans hs).trans (h s')),
    .of_forall fun _ => rfl⟩

/-- Changing the state. -/
theorem modify {f g : MachineState → MachineState} (h : ∀ s s', s.Alike s' → (f s).Alike (g s')) :
    Follows Eq (fun _ => modify f) (fun _ => modify g) :=
  fun _ s s' hs => .inr ⟨.ok ⟨⟩ (g s'), .ok rfl (h s s' hs), .of_forall fun _ => rfl⟩

/-- A program sees nothing of the frames that are opened and closed around its methods. -/
theorem inFrame {y : Nat → MachineM α} (h : Follows Eq x y) :
    Follows Eq
      (fun limit => do
        Setup.openFrame
        let result ← x limit
        Setup.closeFrame
        return result)
      (fun limit => do
        Setup.openFrame
        let result ← y limit
        Setup.closeFrame
        return result) :=
  .bind_eq (.modify_unseen fun _ => ⟨rfl, rfl, rfl, rfl⟩) fun _ =>
    h.bind_eq fun _ => .bind_eq (.modify_unseen fun _ => ⟨rfl, rfl, rfl, rfl⟩) fun _ => .pure rfl

theorem operator {e : Except OperatorError α} (frame frame' : Frame) :
    Follows Eq (fun _ => frame.operator e) (fun _ => frame'.operator e) := by
  cases e with
  | ok a => exact .pure rfl
  | error e => exact .fail (by simp)

theorem countStep (frame frame' : Frame) :
    Follows Eq (fun limit => countStep limit frame) (fun limit => countStep limit frame') := by
  intro limit s s' hs
  by_cases hlimit : limit ≤ s.steps
  · exact .inl ⟨⟨frame.signature, .stepLimit limit⟩, s, countStep_of_le frame hlimit, limit, rfl⟩
  · have hok := countStep_of_lt frame (Nat.lt_of_not_le hlimit)
    have halike : ResultsAlike Eq (TraceWeave.countStep limit frame s)
        (.ok () { s' with steps := s'.steps + 1 }) := by
      rw [hok]
      exact .ok rfl ⟨hs.statics, hs.calls, hs.hostCalls, hs.initialized⟩
    refine .inr ⟨_, halike, ?_⟩
    filter_upwards [eventually_gt_atTop s'.steps] with limit' hlimit'
    exact countStep_of_lt frame' hlimit'

/-- A step that only the first computation takes. -/
theorem countStep_left (frame : Frame) :
    Follows (fun (_ : Unit) (_ : Unit) => True) (fun limit => TraceWeave.countStep limit frame)
      (fun _ => Pure.pure ()) := by
  intro limit s s' hs
  by_cases hlimit : limit ≤ s.steps
  · exact .inl ⟨_, _, countStep_of_le frame hlimit, limit, rfl⟩
  · have halike : ResultsAlike (fun (_ : Unit) (_ : Unit) => True)
        (TraceWeave.countStep limit frame s) (.ok () s') := by
      rw [countStep_of_lt frame (Nat.lt_of_not_le hlimit)]
      exact .ok trivial ⟨hs.statics, hs.calls, hs.hostCalls, hs.initialized⟩
    exact .inr ⟨_, halike, .of_forall fun _ => rfl⟩

/-- A step that only the second computation takes. -/
theorem countStep_right (frame : Frame) :
    Follows (fun (_ : Unit) (_ : Unit) => True) (fun _ => Pure.pure ())
      (fun limit => TraceWeave.countStep limit frame) := by
  intro _ s s' hs
  refine .inr ⟨.ok () { s' with steps := s'.steps + 1 }, .ok trivial ?_, ?_⟩
  · exact hs.trans ⟨rfl, rfl, rfl, rfl⟩
  · filter_upwards [eventually_gt_atTop s'.steps] with limit hlimit
    exact countStep_of_lt frame hlimit

/-- Where the first computation goes through, so does the second one under large limits. -/
theorem eventually_eq_ok (h : Follows R x y) {limit : Nat} {s s' t : MachineState} {a : α}
    (hs : s.Alike s') (hx : x limit s = .ok a t) :
    ∃ b t', R a b ∧ t.Alike t' ∧ ∀ᶠ limit' in atTop, y limit' s' = .ok b t' := by
  have hcases := h limit s s' hs
  rw [hx] at hcases
  obtain ⟨r, hr, hlimit⟩ := hcases.resolve_left (by rintro ⟨_, _, ⟨⟩, _⟩)
  cases hr with
  | ok hab ht => exact ⟨_, _, hab, ht, hlimit⟩

/-- Two runs of computations that follow one another agree, whatever their limits. -/
theorem agree {y : Nat → MachineM α} (hxy : Follows Eq x y) (hyy : Follows Eq y y)
    {limit limit' : Nat} {s s' t t' : MachineState} {a b : α} (hs : s.Alike s')
    (hx : x limit s = .ok a t) (hy : y limit' s' = .ok b t') : a = b ∧ t.Alike t' := by
  obtain ⟨c, u, hac, hu, hlimit⟩ := hxy.eventually_eq_ok hs hx
  obtain ⟨d, u', hbd, hu', hlimit'⟩ := hyy.eventually_eq_ok (.refl s') hy
  obtain ⟨n, hn, hn'⟩ := (hlimit.and hlimit').exists
  rw [hn] at hn'
  cases hn'
  exact ⟨hac.trans hbd.symm, hu.trans hu'.symm⟩

end Follows

end TraceWeave
