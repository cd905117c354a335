import TraceWeave.Proofs.Weave.Refinement

/-!
# Weaving preserves behaviour

A program that was woven, any number of times in one session, does what it did before
(`Plan.weaveRuns_preserves`): whatever a call comes to without using up its budget, the same call of
the woven program comes to under every budget that is large enough, with the same static fields, the
same counts of calls and the same calls of host functions.

Two things are asked of the program.  Its bodies are regular, so no variable that is named like a
temporary is used without being declared.  And no condition that is evaluated negates anything but a
truth value (`Setup.NegatesTruths`), because weaving turns a negation into a comparison with zero.
-/

namespace TraceWeave

/-- In this call, no condition of a branch negates anything but truth values: nothing changes for
the machine that gives up there. -/
def Setup.NegatesTruths (setup : Setup) (owner method : String) (args : List Value)
    (s : MachineState) : Prop :=
  setup.checkedInvoke owner method args s = setup.invoke owner method args s

namespace Plan

/-- Weaves a program several times in one session. -/
def weaveRuns : List (Plan × List Weaver) → Program → Session → Program × Session
  | [], p, s => (p, s)
  | (plan, weavers) :: rest, p, s =>
    let (p, s, _) := plan.weave weavers p s
    weaveRuns rest p s

/-- What every run relates the classes of a program to, all runs together relate them to. -/
theorem weaveRuns_forall₂ {R : Class → Class → Prop} (refl : ∀ c, R c c)
    (trans : ∀ c c₁ c₂, R c c₁ → R c₁ c₂ → R c c₂)
    (weave : ∀ (plan : Plan) weavers p s,
      List.Forall₂ R p.classes (plan.weave weavers p s).1.classes)
    (runs : List (Plan × List Weaver)) (p : Program) (s : Session) :
    List.Forall₂ R p.classes (weaveRuns runs p s).1.classes := by
  induction runs generalizing p s with
  | nil => exact List.forall₂_same.2 fun c _ => refl c
  | cons run rest ih => exact forall₂_comp trans (weave run.1 run.2 p s) (ih _ _)

/-- However often a program is woven, the last program refines the first one. -/
theorem weaveRuns_refines (runs : List (Plan × List Weaver)) {p : Program} (hp : p.Regular)
    (s : Session) : p.Refines (weaveRuns runs p s).1 := by
  induction runs generalizing p s with
  | nil => exact .refl hp
  | cons run rest ih =>
    have hfirst := run.1.weave_refines run.2 hp s
    exact hfirst.trans (ih hfirst.regular _)

/-- Weaving preserves what a program does. -/
theorem weaveRuns_preserves (runs : List (Plan × List Weaver)) {p : Program} (hp : p.Regular)
    (session : Session) (natives : Natives) (limit : Nat) (owner method : String)
    (args : List Value) (s : MachineState)
    (hfinishes : ¬ Stops (Setup.invoke ⟨p, natives, limit⟩ owner method args s))
    (hnegates : Setup.NegatesTruths ⟨p, natives, limit⟩ owner method args s) :
    ∃ bound, ∀ limit' ≥ bound,
      ResultsAlike Eq (Setup.invoke ⟨p, natives, limit⟩ owner method args s)
        (Setup.invoke ⟨(weaveRuns runs p session).1, natives, limit'⟩ owner method args s) := by
  have hrefines := weaveRuns_refines runs hp session
  have hfollows := Setup.checkedInvoke_follows hp hrefines natives owner method args
  have hcases : Stops (Setup.checkedInvoke ⟨p, natives, limit⟩ owner method args s) ∨
      ∃ r, ResultsAlike Eq (Setup.checkedInvoke ⟨p, natives, limit⟩ owner method args s) r ∧
        ∀ᶠ limit' in Filter.atTop, Setup.checkedInvoke
          ⟨(weaveRuns runs p session).1, natives, limit'⟩ owner method args s = r :=
    hfollows limit s s (.refl s)
  rw [hnegates] at hcases
  rcases hcases with hstop | ⟨r, hr, hlimit⟩
  · exact absurd hstop hfinishes
  · obtain ⟨bound, hbound⟩ := Filter.eventually_atTop.1 hlimit
    refine ⟨bound, fun limit' hlimit' => ?_⟩
    have hchecked := hbound limit' hlimit'
    -- The checked machine is not stopped, so it is the machine.
    rcases Setup.checkedInvoke_stopsOrEquals _ owner method args s with hstop | heq
    · rw [hchecked] at hstop
      exact absurd hstop hr.not_stops
    · rw [← heq, hchecked]
      exact hr

/-- A method that returns one if its argument is false, and zero otherwise. -/
def negating : Method :=
  { name := "pick", params := [⟨"flag", .boolean⟩], returnType := .int
    body := { instrs := [⟨⟨0⟩, 5, .branch (.unary .not (.var ⟨"flag", .boolean⟩)) ⟨2⟩⟩,
      ⟨⟨1⟩, 6, .ret (some (.value (.int 0)))⟩, ⟨⟨2⟩, 7, .ret (some (.value (.int 1)))⟩] } }

theorem negating_regular : negating.body.Regular where
  consistent := by decide
  declares := by decide
  negates := by
    intro i hi
    simp only [negating, List.mem_cons, List.not_mem_nil, or_false] at hi
    rcases hi with rfl | rfl | rfl
    · exact ⟨rfl, trivial⟩
    · trivial
    · trivial

/-- The state after calling the method once. -/
def picked : MachineState := { calls := ⟨[(("Foo", "pick"), 1)]⟩, steps := 2, deepest := 1 }

/-- The call of the method goes on returning one after both phases. -/
theorem negating_preserved :
    Setup.invoke ⟨⟨[lone negating]⟩, .none, 10⟩ "Foo" "pick" [.bool false] {} =
        .ok (some (.int 1)) picked ∧
      ∃ bound, ∀ limit' ≥ bound,
        ResultsAlike Eq (Setup.invoke ⟨⟨[lone negating]⟩, .none, 10⟩ "Foo" "pick" [.bool false] {})
          (Setup.invoke ⟨(weaveRuns [(requestingFive, productWeavers), ({}, testWeavers)]
            ⟨[lone negating]⟩ ∅).1, .none, limit'⟩ "Foo" "pick" [.bool false] {}) := by
  have hregular : Program.Regular ⟨[lone negating]⟩ := by
    intro c hc m hm
    rw [List.mem_singleton.1 hc] at hm
    rw [List.mem_singleton.1 hm]
    exact negating_regular
  have hresult : Setup.invoke ⟨⟨[lone negating]⟩, .none, 10⟩ "Foo" "pick" [.bool false] {} =
      .ok (some (.int 1)) picked := by rfl
  have hchecked : Setup.checkedInvoke ⟨⟨[lone negating]⟩, .none, 10⟩ "Foo" "pick" [.bool false]
      {} = .ok (some (.int 1)) picked := by rfl
  refine ⟨hresult, weaveRuns_preserves _ hregular _ _ _ _ _ _ _ ?_ (hchecked.trans hresult.symm)⟩
  rintro ⟨f, t, herror, -⟩
  rw [hresult] at herror
  cases herror

end Plan

end TraceWeave
