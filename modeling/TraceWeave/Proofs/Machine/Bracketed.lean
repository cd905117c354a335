import TraceWeave.Proofs.Machine.Block
import TraceWeave.Proofs.Machine.Effect
import TraceWeave.Proofs.Trace.Markers
import TraceWeave.Proofs.Weave.TestMarkers

/-!
# Brackets of test markers

A method of a woven program either marks a test, with `Body.MarksTest`, or has no markers at all.
Whatever calls whatever, the markers that a run offers to the recorder are nested like brackets, and
a run offers none exactly if it counts no call of a method that marks (`Effect.bracketing`).  A call
of a method that marks offers its start, what is nested in it, its end, and what the value that it
returns still calls (`Setup.execute_brackets`).
-/

namespace TraceWeave

/-! ## Markers of probes -/

theorem Probe.isMarker_of_request? {p : Probe} {frame : Frame} {r : RecorderRequest}
    (h : p.request? frame = some r) : r.isMarker = (Operation.probe p).isTestMarker := by
  cases p with
  | capture file line x source =>
    obtain ⟨v, -, rfl⟩ := Option.map_eq_some_iff.1 h
    rfl
  | _ =>
    cases h
    rfl

/-! ## What a run adds -/

namespace MachineState

/-- The state after something was asked of the recorder. -/
def asked (s : MachineState) (r : RecorderRequest) : MachineState :=
  { s with trace := r :: s.trace }

/-- Between two states, these requests were added, and no call was forgotten. -/
structure Grows (s t : MachineState) (l : List RecorderRequest) : Prop where
  requests : t.requests = s.requests ++ l
  counts : ∀ owner method, s.callCount owner method ≤ t.callCount owner method

/-- Between two states, no call was counted of a method that marks. -/
def Quiet (marks : String → String → Prop) (s t : MachineState) : Prop :=
  ∀ owner method, marks owner method → t.callCount owner method = s.callCount owner method

namespace Grows

variable {s t u : MachineState} {l l' : List RecorderRequest} {marks : String → String → Prop}

theorem of_silent (htrace : t.trace = s.trace) (hcalls : t.calls = s.calls) : s.Grows t [] :=
  ⟨by rw [MachineState.requests, htrace, List.append_nil]; rfl,
    fun _ _ => by rw [callCount, callCount, hcalls]⟩

theorem request (s : MachineState) (r : RecorderRequest) :
    s.Grows (s.asked r) [r] :=
  ⟨by simp [MachineState.requests, asked], fun _ _ => le_refl _⟩

theorem trans (h : s.Grows t l) (h' : t.Grows u l') : s.Grows u (l ++ l') :=
  ⟨by rw [h'.requests, h.requests, List.append_assoc],
    fun owner method => (h.counts owner method).trans (h'.counts owner method)⟩

theorem requests_eq (h : s.Grows t l) (hs : s.trace = []) : t.requests = l := by
  rw [h.requests, MachineState.requests, hs]
  rfl

/-- Nothing is counted in two parts exactly if nothing is counted in either. -/
theorem quiet_iff (h : s.Grows t l) (h' : t.Grows u l') :
    s.Quiet marks u ↔ s.Quiet marks t ∧ t.Quiet marks u := by
  constructor
  · intro hquiet
    refine ⟨fun owner method hmarks => ?_, fun owner method hmarks => ?_⟩ <;>
    · have := hquiet owner method hmarks
      have := h.counts owner method
      have := h'.counts owner method
      omega
  · exact fun ⟨hst, htu⟩ owner method hmarks =>
      (htu owner method hmarks).trans (hst owner method hmarks)

end Grows

theorem quiet_of_silent {s t : MachineState} {marks : String → String → Prop}
    (hcalls : t.calls = s.calls) : s.Quiet marks t := fun _ _ _ => by
  rw [callCount, callCount, hcalls]

/-- Between two states, the markers that were added are nested, and there are none exactly if no
call of a method that marks was counted. -/
def Brackets (marks : String → String → Prop) (s t : MachineState) : Prop :=
  ∃ l, s.Grows t l ∧ Nested (markersOf l) ∧ (markersOf l = [] ↔ s.Quiet marks t)

/-- Between two states, nested markers, the end of a test, and other nested markers were added, and
there are no nested markers exactly if no call of a method that marks was counted. -/
def Ends (marks : String → String → Prop) (test : String) (s t : MachineState) : Prop :=
  ∃ l inner outer, s.Grows t l ∧ markersOf l = inner ++ .endTest test :: outer ∧ Nested inner ∧
    Nested outer ∧ (inner ++ outer = [] ↔ s.Quiet marks t)

variable {marks : String → String → Prop} {test : String} {s t u : MachineState}

theorem Brackets.of_silent (htrace : t.trace = s.trace) (hcalls : t.calls = s.calls) :
    Brackets marks s t :=
  ⟨[], .of_silent htrace hcalls, .nil, iff_of_true rfl (quiet_of_silent hcalls)⟩

theorem Brackets.trans (h : Brackets marks s t) (h' : Brackets marks t u) : Brackets marks s u := by
  obtain ⟨l, hgrows, hnested, hquiet⟩ := h
  obtain ⟨l', hgrows', hnested', hquiet'⟩ := h'
  refine ⟨l ++ l', hgrows.trans hgrows', ?_, ?_⟩
  · rw [markersOf_append]
    exact hnested.append hnested'
  · rw [markersOf_append, List.append_eq_nil_iff, hquiet, hquiet', hgrows.quiet_iff hgrows']

theorem Brackets.request {r : RecorderRequest} (hr : r.isMarker = false) :
    Brackets marks s (s.asked r) := by
  have hnone : markersOf [r] = [] := by simp [markersOf, hr]
  refine ⟨[r], .request s r, ?_, iff_of_true hnone (quiet_of_silent rfl)⟩
  rw [hnone]
  exact .nil

theorem Brackets.after (h : Brackets marks s t) (h' : Ends marks test t u) :
    Ends marks test s u := by
  obtain ⟨l, hgrows, hnested, hquiet⟩ := h
  obtain ⟨l', inner, outer, hgrows', hl', hinner, houter, hquiet'⟩ := h'
  refine ⟨l ++ l', markersOf l ++ inner, outer, hgrows.trans hgrows', ?_, hnested.append hinner,
    houter, ?_⟩
  · rw [markersOf_append, hl', List.append_assoc]
  · rw [List.append_assoc, List.append_eq_nil_iff, hquiet, hquiet', hgrows.quiet_iff hgrows']

theorem Ends.append (h : Ends marks test s t) (h' : Brackets marks t u) : Ends marks test s u := by
  obtain ⟨l, inner, outer, hgrows, hl, hinner, houter, hquiet⟩ := h
  obtain ⟨l', hgrows', hnested', hquiet'⟩ := h'
  refine ⟨l ++ l', inner, outer ++ markersOf l', hgrows.trans hgrows', ?_, hinner,
    houter.append hnested', ?_⟩
  · rw [markersOf_append, hl, List.append_assoc, List.cons_append]
  · rw [← List.append_assoc, List.append_eq_nil_iff, hquiet, hquiet', hgrows.quiet_iff hgrows']

/-- The end marker, and then other things. -/
theorem Ends.before (h : Brackets marks (s.asked (.endTest test)) t) :
    Ends marks test s t := by
  obtain ⟨l, hgrows, hnested, hquiet⟩ := h
  exact ⟨.endTest test :: l, [], markersOf l, (Grows.request s _).trans hgrows, rfl, .nil, hnested,
    hquiet⟩

/-- With its start before it, a test offers a bracket and other nested markers. -/
theorem Ends.opened (h : Ends marks test (s.asked (.beginTest test)) t) :
    ∃ l inner outer, s.Grows t l ∧
      markersOf l = .beginTest test :: inner ++ [.endTest test] ++ outer ∧ Nested inner ∧
        Nested outer ∧ (inner ++ outer = [] ↔ s.Quiet marks t) := by
  obtain ⟨l, inner, outer, hgrows, hl, hinner, houter, hquiet⟩ := h
  refine ⟨_, inner, outer, (Grows.request s (.beginTest test)).trans hgrows, ?_, hinner, houter,
    hquiet⟩
  rw [markersOf_append, hl]
  change .beginTest test :: (inner ++ .endTest test :: outer) = _
  simp

end MachineState

/-- Leaving the trace and the call counts alone. -/
def Effect.silence : Effect where
  done s t := t.trace = s.trace ∧ t.calls = s.calls
  failed _ _ := True
  done_of_silent h := ⟨h.trace, h.calls⟩
  failed_of_silent _ := trivial
  done_trans h h' := ⟨h'.1.trans h.1, h'.2.trans h.2⟩
  failed_trans _ _ := trivial

/-- Offering nested markers, and none exactly if no call of a method that marks is counted. -/
def Effect.bracketing (marks : String → String → Prop) : Effect where
  done := MachineState.Brackets marks
  failed _ _ := True
  done_of_silent h := .of_silent h.trace h.calls
  failed_of_silent _ := trivial
  done_trans := .trans
  failed_trans _ _ := trivial

namespace Effect.Bounds

variable {marks : String → String → Prop}

/-- A probe that is no marker offers no marker. -/
theorem fire_of_not_marker {p : Probe} (h : (Operation.probe p).isTestMarker = false)
    (frame : Frame) : (bracketing marks).Bounds (p.fire frame) :=
  .fire fun _ hr _ => .request ((p.isMarker_of_request? hr).trans h)

theorem round {A : Effect} {call : Call} (hcall : ∀ callee args, A.Bounds (call callee args))
    (limit : Nat) (b : Body) (frame : Frame) (position : Nat) {i : Instr}
    (hprobe : ∀ p, i.op = .probe p → A.Bounds (p.fire frame)) :
    A.Bounds (b.round limit call frame position i) :=
  .bind (.countStep limit frame) fun _ =>
    (congruence A).execute call call frame hcall b position hprobe

end Effect.Bounds

/-! ## Bodies of tests -/

namespace Body

theorem runFrom_succ {limit : Nat} {call : Call} {b : Body} {position : Nat} {i : Instr}
    (hi : b.instrs[position]? = some i) (rounds : Nat) (frame : Frame) :
    b.runFrom limit call (rounds + 1) frame position =
      b.round limit call frame position i >>= fun control =>
        match control with
        | .next frame position => b.runFrom limit call rounds frame position
        | .finish result => pure result := by
  rw [runFrom, hi, round]
  exact (bind_assoc _ _ _).symm

/-- The operations from a position on begin with the one of the instruction there. -/
theorem exists_of_opsFrom_eq_cons {b : Body} {position : Nat} {op : Operation}
    {rest : List Operation} (h : b.opsFrom position = op :: rest) :
    ∃ i, b.instrs[position]? = some i ∧ i.op = op ∧ b.opsFrom (position + 1) = rest := by
  have hlt : position < b.instrs.length := by
    by_contra hge
    rw [opsFrom, List.drop_of_length_le (by omega)] at h
    cases h
  rw [opsFrom, List.drop_eq_getElem_cons hlt, List.map_cons] at h
  obtain ⟨hop, hrest⟩ := List.cons.inj h
  exact ⟨_, List.getElem?_eq_getElem hlt, hop, hrest⟩

variable {marks : String → String → Prop} {call : Call} {limit rounds : Nat} {b : Body}
variable {frame : Frame} {position : Nat} {s t : MachineState} {result : Option Value}

/-- A run that comes to a probe asks for its request and goes on. -/
theorem exists_runFrom_of_probe {i : Instr} {p : Probe} {r : RecorderRequest}
    (hi : b.instrs[position]? = some i) (hop : i.op = .probe p) (hr : p.request? frame = some r)
    (hrun : b.runFrom limit call rounds frame position s = .ok result t) :
    ∃ (rounds' : Nat) (s' : MachineState), s'.trace = s.trace ∧ s'.calls = s.calls ∧
      b.runFrom limit call rounds' frame (position + 1) (s'.asked r) = .ok result t := by
  cases rounds with
  | zero => cases hrun
  | succ rounds =>
    rw [runFrom_succ hi] at hrun
    obtain ⟨control, s₁, hround, hrun⟩ := bind_eq_ok.1 hrun
    obtain ⟨_, s', hcount, hexecute⟩ := bind_eq_ok.1 hround
    obtain ⟨htrace, hcalls⟩ :=
      (Effect.Bounds.countStep (A := Effect.silence) limit frame).done_of_ok hcount
    rw [hop] at hexecute
    obtain ⟨_, s₂, hfire, hexecute⟩ := bind_eq_ok.1 hexecute
    simp only [Probe.fire, hr] at hfire
    cases hfire
    cases hexecute
    exact ⟨rounds, s', htrace, hcalls, hrun⟩

/-- A run that comes to a return ends there, and what it returns may still call methods. -/
theorem brackets_of_ret (hcall : ∀ callee args, (Effect.bracketing marks).Bounds (call callee args))
    {i : Instr} {value : Option Expr} (hi : b.instrs[position]? = some i) (hop : i.op = .ret value)
    (hrun : b.runFrom limit call rounds frame position s = .ok result t) : s.Brackets marks t := by
  cases rounds with
  | zero => cases hrun
  | succ rounds =>
    rw [runFrom_succ hi] at hrun
    obtain ⟨control, s₁, hround, hrun⟩ := bind_eq_ok.1 hrun
    have hbounds := (Effect.Bounds.round hcall limit b frame position fun p hp => by
      rw [hop] at hp
      cases hp).done_of_ok hround
    obtain ⟨_, _, -, hexecute⟩ := bind_eq_ok.1 hround
    rw [hop] at hexecute
    cases Operation.goesOn_of_execute hexecute with
    | finish =>
      cases hrun
      exact hbounds
    | step h => cases h
    | jump htarget => cases htarget

/-- A run from inside the body of a test passes one end marker. -/
theorem MarksTest.ends_of_runFrom {test : String} (hb : b.MarksTest test)
    (hcall : ∀ callee args, (Effect.bracketing marks).Bounds (call callee args))
    (hne : b.opsFrom position ≠ []) (hclosed : Closed test (b.opsFrom position))
    (hrun : b.runFrom limit call rounds frame position s = .ok result t) : s.Ends marks test t := by
  induction rounds generalizing frame position s with
  | zero => cases hrun
  | succ rounds ih =>
    generalize hops : b.opsFrom position = ops at hne hclosed
    cases hclosed with
    | done => exact absurd rfl hne
    | @plain op rest hreturn hmarker hnext hrest =>
      obtain ⟨i, hi, rfl, rfl⟩ := exists_of_opsFrom_eq_cons hops
      rw [runFrom_succ hi] at hrun
      obtain ⟨control, s₁, hround, hrun⟩ := bind_eq_ok.1 hrun
      have hbounds := (Effect.Bounds.round hcall limit b frame position fun p hp =>
        Effect.Bounds.fire_of_not_marker (hp ▸ hmarker) frame).done_of_ok hround
      obtain ⟨_, _, -, hexecute⟩ := bind_eq_ok.1 hround
      refine MachineState.Brackets.after hbounds ?_
      cases Operation.goesOn_of_execute hexecute with
      | finish h =>
        rw [hreturn] at h
        cases h
      | step h =>
        rw [h] at hnext
        exact ih (hnext.resolve_left (by simp)) hrest hrun
      | @jump _ t _ htarget hposition =>
        obtain ⟨hne, hclosed⟩ := hb.jumps t (mem_targets.2 ⟨i, List.mem_of_getElem? hi, htarget⟩) _
          hposition
        exact ih hne hclosed hrun
    | @finish value rest hrest =>
      obtain ⟨i, hi, hop, hops⟩ := exists_of_opsFrom_eq_cons hops
      obtain ⟨j, hj, hret, -⟩ := exists_of_opsFrom_eq_cons hops
      obtain ⟨_, s', htrace, hcalls, hrun⟩ := exists_runFrom_of_probe hi hop rfl hrun
      have hcounted : s.Brackets marks s' := .of_silent htrace hcalls
      exact hcounted.after (.before (brackets_of_ret hcall hj hret hrun))

end Body

/-! ## Calls -/

namespace MachineState

/-- The state after a call was counted. -/
def called (s : MachineState) (callee : Callee) : MachineState :=
  { s with
    calls := s.calls.insert (callee.owner, callee.method)
      (s.callCount callee.owner callee.method + 1) }

theorem callCount_called (s : MachineState) (callee : Callee) (owner method : String) :
    (s.called callee).callCount owner method =
      if (callee.owner, callee.method) = (owner, method) then
        s.callCount callee.owner callee.method + 1
      else s.callCount owner method := by
  rw [called, callCount, Table.get?_insert]
  split <;> rfl

theorem Grows.called (s : MachineState) (callee : Callee) : s.Grows (s.called callee) [] := by
  refine ⟨(List.append_nil _).symm, fun owner method => ?_⟩
  rw [callCount_called]
  split
  · next h =>
    cases h
    omega
  · exact le_refl _

variable {marks : String → String → Prop} {callee : Callee}

theorem Brackets.called (s : MachineState) (h : ¬ marks callee.owner callee.method) :
    Brackets marks s (s.called callee) := by
  refine ⟨[], .called s callee, .nil, iff_of_true rfl fun owner method hmarks => ?_⟩
  rw [callCount_called, if_neg]
  intro hcallee
  cases hcallee
  exact h hmarks

/-- A call that marks a test is counted, and offers the start before anything else. -/
theorem Brackets.of_ends {s t : MachineState} {test : String}
    (hmarks : marks callee.owner callee.method)
    (h : Ends marks test ((s.called callee).asked (.beginTest test)) t) : Brackets marks s t := by
  obtain ⟨l, inner, outer, hgrows, hl, hinner, houter, -⟩ := h.opened
  refine ⟨_, (Grows.called s callee).trans hgrows, ?_, ?_⟩
  · rw [List.nil_append, hl]
    exact (Nested.test test hinner).append houter
  · rw [List.nil_append, hl]
    refine iff_of_false (by simp) fun hquiet => ?_
    have hcount := hquiet _ _ hmarks
    have hle := hgrows.counts callee.owner callee.method
    rw [callCount_called, if_pos rfl] at hle
    omega

end MachineState

namespace Setup

/-- Methods with these names mark tests, and no others have markers. -/
structure MarksTests (setup : Setup) (isTest : String → String → Bool) : Prop where
  marked : ∀ c ∈ setup.program.classes, ∀ m ∈ c.methods, isTest c.name m.name = true →
    m.body.MarksTest (m.signature c.name)
  unmarked : ∀ c ∈ setup.program.classes, ∀ m ∈ c.methods, isTest c.name m.name = false →
    ∀ i ∈ m.body.instrs, i.op.isTestMarker = false

/-- A call of these names marks a test: it is no call of a host function, and names a test. -/
def CallMarks (setup : Setup) (isTest : String → String → Bool) (owner method : String) : Prop :=
  setup.natives owner method = none ∧ isTest owner method = true

/-- What is known of methods at a depth: one that marks its test begins with the start, and others
only bracket. -/
structure BracketsAt (setup : Setup) (isTest : String → String → Bool) (depth : Nat) : Prop where
  marked : ∀ c ∈ setup.program.classes, ∀ m ∈ c.methods, isTest c.name m.name = true →
    ∀ args s result t, setup.execute depth c.name m args s = .ok result t →
      MachineState.Ends (setup.CallMarks isTest) (m.signature c.name)
        (s.asked (.beginTest (m.signature c.name))) t
  unmarked : ∀ c ∈ setup.program.classes, ∀ m ∈ c.methods, isTest c.name m.name = false →
    ∀ args, (Effect.bracketing (setup.CallMarks isTest)).Bounds (setup.execute depth c.name m args)

variable {setup : Setup} {isTest : String → String → Bool} {depth : Nat}

theorem dispatch_of_resolve? {run : String → Method → List Value → MachineM (Option Value)}
    {callee : Callee} {m : Method} (hnative : setup.natives callee.owner callee.method = none)
    (hm : setup.resolve? callee = some m) (args : List Value) (s : MachineState) :
    setup.dispatch run callee args s = run callee.owner m args (s.called callee) := by
  rw [dispatch, bind_of_ok _ (rfl : countCall callee s = .ok () (s.called callee)), hnative, hm]
  rfl

/-- Calls only bracket, whether they mark a test or not. -/
theorem dispatch_brackets (h : setup.BracketsAt isTest depth) (callee : Callee)
    (args : List Value) :
    (Effect.bracketing (setup.CallMarks isTest)).Bounds
      (setup.dispatch (setup.execute depth) callee args) := by
  by_cases hmarks : setup.CallMarks isTest callee.owner callee.method
  · intro s
    cases hrun : setup.dispatch (setup.execute depth) callee args s with
    | error e t => trivial
    | ok result t =>
      cases hm : setup.resolve? callee with
      | none =>
        rw [dispatch, bind_of_ok _ (rfl : countCall callee s = .ok () (s.called callee)), hmarks.1,
          hm] at hrun
        cases hrun
      | some m =>
        obtain ⟨c, hc, howner, hmem, hname⟩ := exists_mem_of_resolve? hm
        rw [dispatch_of_resolve? hmarks.1 hm, ← howner] at hrun
        exact .of_ends hmarks (h.marked c hc m hmem (howner ▸ hname ▸ hmarks.2) _ _ _ _ hrun)
  · refine .dispatch (fun s => MachineState.Brackets.called s hmarks)
      (fun hnative m hm args => ?_) args
    obtain ⟨c, hc, howner, hmem, hname⟩ := exists_mem_of_resolve? hm
    have htest : isTest c.name m.name = false := by
      by_contra htest
      exact hmarks ⟨hnative, by simpa [howner, hname] using htest⟩
    rw [← howner]
    exact h.unmarked c hc m hmem htest args

/-- A method that marks its test offers the start first, and then one end. -/
theorem ends_of_execute (hcall : ∀ callee args, (Effect.bracketing (setup.CallMarks isTest)).Bounds
      (setup.dispatch (setup.execute depth) callee args)) {owner test : String} {m : Method}
    (hbody : m.body.MarksTest test) {args : List Value} {s t : MachineState} {result : Option Value}
    (hrun : setup.execute (depth + 1) owner m args s = .ok result t) :
    MachineState.Ends (setup.CallMarks isTest) test (s.asked (.beginTest test)) t := by
  rw [execute] at hrun
  split at hrun
  · obtain ⟨_, _, h, -⟩ := bind_eq_ok.1 hrun
    cases h
  · obtain ⟨_, s₁, hopen, hrun⟩ := bind_eq_ok.1 hrun
    cases hopen
    obtain ⟨_, s₂, hbodyrun, hrun⟩ := bind_eq_ok.1 hrun
    obtain ⟨_, s₃, hclose, hrun⟩ := bind_eq_ok.1 hrun
    cases hclose
    cases hrun
    obtain ⟨i, hi, hop⟩ := hbody.start
    obtain ⟨_, s₄, htrace, hcalls, hbodyrun⟩ :=
      Body.exists_runFrom_of_probe hi hop rfl hbodyrun
    have hends := hbody.ends_of_runFrom hcall hbody.inside_ne hbody.inside hbodyrun
    have hstart : MachineState.Brackets (setup.CallMarks isTest) (s.asked (.beginTest test))
        (s₄.asked (.beginTest test)) := .of_silent (congrArg (_ :: ·) htrace) hcalls
    exact (hstart.after hends).append (.of_silent rfl rfl)

/-- At every depth, calls nest their markers. -/
theorem execute_brackets (h : setup.MarksTests isTest) (depth : Nat) :
    setup.BracketsAt isTest depth := by
  induction depth with
  | zero => exact ⟨fun _ _ _ _ _ _ _ _ _ h => (by cases h), fun _ _ _ _ _ _ => .throw _⟩
  | succ depth ih =>
    have hcall := dispatch_brackets ih
    refine ⟨fun c hc m hm htest _ _ _ _ hrun =>
      ends_of_execute hcall (h.marked c hc m hm htest) hrun, fun c hc m hm htest args => ?_⟩
    exact .executeMethod (fun frame => .runFrom hcall (fun i hi p hp frame =>
      .fire_of_not_marker (hp ▸ h.unmarked c hc m hm htest i hi) frame) _ _ _ _) args

end Setup

end TraceWeave
