import TraceWeave.Proofs.Machine.Accounts
import TraceWeave.Proofs.Machine.Follows

/-!
# Every run stops within its limits

Every call at the top level and every test run has a course, and what the course logs stays within
the limits: all frames together execute no more instructions than the budget has, and at no moment
more than `maxDepth + 1` frames are active (`Setup.stops_within_limits`).

Jumps are bounded by the budget, which all frames share: each round of a body uses up some of it.
Calls are bounded by the check of the depth, whatever is left of the budget.
-/

namespace TraceWeave

/-! ## Spending -/

/-- From one state to the next, everything that was used is in the log and within bounds: of
instructions, and of frames on top of those that were active. -/
structure MachineState.Spends (limit depth : Nat) (s : MachineState) (log : List Happening)
    (t : MachineState) : Prop where
  used : t.usage = s.usage.afterAll log
  limited : t.steps ≤ limit
  shallow : ∀ p, p <+: log → (s.usage.afterAll p).active ≤ s.active + depth

namespace MachineState.Spends

variable {limit depth : Nat} {s t u : MachineState} {log log' : List Happening}

theorem nothing (hlimit : s.steps ≤ limit) (h : t.usage = s.usage) : s.Spends limit depth [] t where
  used := h
  limited := (congrArg Usage.executed h).trans_le hlimit
  shallow p hp := by
    rw [List.prefix_nil.1 hp]
    exact Nat.le_add_right _ _

theorem append (h : s.Spends limit depth log t) (hactive : t.active = s.active)
    (h' : t.Spends limit depth log' u) : s.Spends limit depth (log ++ log') u where
  used := by rw [h'.used, h.used, Usage.afterAll_append]
  limited := h'.limited
  shallow p hp := by
    rcases List.prefix_or_prefix_of_prefix hp (List.prefix_append log log') with hlog | ⟨q, rfl⟩
    · exact h.shallow p hlog
    · rw [Usage.afterAll_append, ← h.used, ← hactive]
      exact h'.shallow q ((List.prefix_append_right_inj log).1 hp)

theorem opening (h : t.Spends limit depth log u) (hopen : t.usage = s.usage.after .opened) :
    s.Spends limit (depth + 1) (.opened :: log) u where
  used := by rw [h.used, hopen, Usage.afterAll_cons]
  limited := h.limited
  shallow p hp := by
    have hactive : t.active = s.active + 1 := congrArg Usage.active hopen
    rcases List.prefix_cons_iff.1 hp with rfl | ⟨q, rfl, hq⟩
    · exact Nat.le_add_right _ _
    · have hq := h.shallow q hq
      rw [Usage.afterAll_cons, ← hopen]
      omega

theorem closing (h : s.Spends limit depth log t) (hclose : u.usage = t.usage.after .closed) :
    s.Spends limit depth (log ++ [.closed]) u where
  used := by rw [hclose, h.used, Usage.afterAll_append, Usage.afterAll_cons, Usage.afterAll_nil]
  limited := (congrArg Usage.executed hclose).trans_le h.limited
  shallow p hp := by
    rcases List.prefix_concat_iff.1 hp with rfl | hp
    · rw [Usage.afterAll_append]
      exact (Nat.sub_le _ _).trans (h.shallow log List.prefix_rfl)
    · exact h.shallow p hp

theorem le_steps (h : s.Spends limit depth log t) : s.steps ≤ t.steps :=
  (s.usage.executed_le_afterAll log).trans_eq (congrArg Usage.executed h.used).symm

end MachineState.Spends

theorem Setup.usage_of_openFrame {s t : MachineState} {u : Unit}
    (h : Setup.openFrame s = .ok u t) : t.usage = s.usage.after .opened := by
  cases h
  rfl

theorem Setup.usage_of_closeFrame {s t : MachineState} {u : Unit}
    (h : Setup.closeFrame s = .ok u t) : t.usage = s.usage.after .closed := by
  cases h
  rfl

/-- A round of a body that has come to its end. -/
theorem Body.runFrom_of_none {b : Body} {position : Nat} (h : b.instrs[position]? = none)
    (limit : Nat) (call : Call) (rounds : Nat) (frame : Frame) :
    b.runFrom limit call (rounds + 1) frame position = pure none := by
  rw [Body.runFrom, h]

/-- The instruction at a position is counted and executed. -/
def Instr.step (limit : Nat) (call : Call) (b : Body) (frame : Frame) (position : Nat) (i : Instr) :
    MachineM Control := do
  countStep limit frame
  i.op.execute call b frame position

/-- A round of a body that goes on. -/
theorem Body.runFrom_of_some {b : Body} {position : Nat} {i : Instr}
    (h : b.instrs[position]? = some i) (limit : Nat) (call : Call) (rounds : Nat) (frame : Frame) :
    b.runFrom limit call (rounds + 1) frame position = (do
      match ← i.step limit call b frame position with
      | .next frame position => b.runFrom limit call rounds frame position
      | .finish result => return result) := by
  rw [Body.runFrom, h, Instr.step]
  exact (bind_assoc _ _ _).symm

/-- The account of runs that stay within bounds; what succeeds leaves as many frames as it found. -/
def Account.spending (limit depth : Nat) : Account Happening where
  ready s := s.steps ≤ limit
  done s log t := s.Spends limit depth log t ∧ t.active = s.active
  failed s log t := s.Spends limit depth log t
  ready_of_done h := h.1.limited
  nothing hlimit h := ⟨⟨.nothing hlimit h, congrArg Usage.active h⟩, .nothing hlimit h⟩
  done_trans h h' := ⟨h.1.append h.2 h'.1, h'.2.trans h.2⟩
  failed_trans h h' := h.1.append h.2 h'

namespace Account.Describes

variable {limit depth : Nat} {known : Prop}

theorem counted (frame : Frame) (i : Instr) :
    (spending limit depth).Describes known (.counted limit frame i) (countStep limit frame) where
  total _ s _ := by
    rcases Nat.lt_or_ge s.steps limit with h | h
    · rw [countStep_of_lt frame h]
      exact ⟨_, .room h⟩
    · rw [countStep_of_le frame h]
      exact ⟨_, .full h⟩
  sound := by
    rintro s _ _ hlimit (h | h)
    · refine ⟨(countStep_of_lt frame h).symm, ⟨⟨rfl, h, fun p hp => ?_⟩, rfl⟩⟩
      rcases List.prefix_cons_iff.1 hp with rfl | ⟨q, rfl, hq⟩
      · exact Nat.le_add_right _ _
      · rw [List.prefix_nil.1 hq]
        exact Nat.le_add_right _ _
    · exact ⟨(countStep_of_le frame h).symm, .nothing hlimit rfl⟩

/-- A frame adds one to the frames of what runs in it. -/
theorem framed {C : Course Happening (Option Value)} {x : MachineM (Option Value)}
    (h : (spending limit depth).Describes known C x) :
    (spending limit (depth + 1)).Describes known (.framed C) (do
      Setup.openFrame
      let result ← x
      Setup.closeFrame
      return result) where
  total hknown s hlimit := by
    obtain ⟨t, hopen⟩ : ∃ t, Setup.openFrame s = .ok () t := ⟨_, rfl⟩
    have hready : t.steps ≤ limit :=
      (congrArg Usage.executed (Setup.usage_of_openFrame hopen)).trans_le hlimit
    obtain ⟨log, hlog⟩ := h.total hknown t hready
    rw [bind_of_ok _ hopen]
    cases hx : x t with
    | error f u =>
      rw [bind_of_error _ hx]
      exact ⟨_, .failed hopen (hx ▸ hlog)⟩
    | ok a u =>
      rw [bind_of_ok _ hx]
      exact ⟨_, .done hopen (hx ▸ hlog) rfl⟩
  sound := by
    rintro s _ _ hlimit (⟨hopen, hlog⟩ | ⟨hopen, hlog, hclose⟩)
    all_goals
      have hopened := Setup.usage_of_openFrame hopen
      obtain ⟨hx, hallows⟩ := h.sound ((congrArg Usage.executed hopened).trans_le hlimit) hlog
      rw [bind_of_ok _ hopen]
    · exact ⟨(bind_of_error _ hx.symm).symm, hallows.opening hopened⟩
    · obtain ⟨hspends, hactive⟩ := hallows
      have hclosed := Setup.usage_of_closeFrame hclose
      rw [bind_of_ok _ hx.symm, bind_of_ok _ hclose]
      refine ⟨rfl, (hspends.closing hclosed).opening hopened, ?_⟩
      have hinside := hactive.trans (congrArg Usage.active hopened)
      exact (congrArg Usage.active hclosed).trans (congrArg (· - 1) hinside)

section

variable {calls : Calls} {call : Call}
variable (hcall : ∀ callee args,
  (spending limit depth).Describes known (calls callee args) (call callee args))

include hcall

theorem instr (b : Body) (frame : Frame) (position : Nat) (i : Instr) :
    (spending limit depth).Describes known (i.course limit calls b frame position)
      (i.step limit call b frame position) :=
  (Describes.counted frame i).bind fun _ => .execute hcall b frame position i.op

/-- An instruction after which a body goes on has been counted. -/
theorem lt_steps_of_instr {b : Body} {frame : Frame} {position : Nat} {i : Instr}
    {s t : MachineState} {log : List Happening} {control : Control}
    (h : i.course limit calls b frame position s log (.ok control t)) : s.steps < t.steps := by
  obtain - | ⟨hcounted, hexecuted⟩ := h
  obtain hroom | - := hcounted
  have hsound := (Describes.execute hcall b frame position i.op).sound
    (s := { s with steps := s.steps + 1 }) hroom hexecuted
  obtain ⟨-, hspends, -⟩ := hsound
  exact hspends.le_steps

/-- One round more than there are instructions left is enough rounds for a body. -/
theorem exists_goes (hknown : known) (b : Body) {rounds : Nat} {frame : Frame} {position : Nat}
    {s : MachineState} (hlimit : s.steps ≤ limit) (hrounds : limit < s.steps + rounds) :
    ∃ log, b.Goes limit calls frame position s log
      (b.runFrom limit call rounds frame position s) := by
  induction rounds generalizing frame position s with
  | zero => omega
  | succ rounds ih =>
    cases hi : b.instrs[position]? with
    | none =>
      rw [Body.runFrom_of_none hi]
      exact ⟨[], .fallsOff hi⟩
    | some i =>
      have hinstr := Describes.instr hcall b frame position i
      obtain ⟨log, hlog⟩ := hinstr.total hknown s hlimit
      rw [Body.runFrom_of_some hi]
      cases hx : i.step limit call b frame position s with
      | error f t =>
        rw [bind_of_error _ hx]
        exact ⟨log, .fails hi (hx ▸ hlog)⟩
      | ok control t =>
        rw [hx] at hlog
        rw [bind_of_ok _ hx]
        obtain ⟨-, hspends, -⟩ := hinstr.sound hlimit hlog
        cases control with
        | finish result => exact ⟨log, .finishes hi hlog⟩
        | next frame' position' =>
          have hlt := lt_steps_of_instr hcall hlog
          obtain ⟨log', hlog'⟩ := @ih frame' position' t hspends.limited (by omega)
          exact ⟨log ++ log', .goesOn hi hlog hlog'⟩

theorem eq_runFrom_of_goes {b : Body} {frame : Frame} {position : Nat} {s : MachineState}
    {log : List Happening} {r : EStateM.Result Fault MachineState (Option Value)}
    (h : b.Goes limit calls frame position s log r) {rounds : Nat} (hlimit : s.steps ≤ limit)
    (hrounds : limit < s.steps + rounds) :
    r = b.runFrom limit call rounds frame position s ∧
      (spending limit depth).Allows s log r := by
  obtain ⟨rounds, rfl⟩ := Nat.exists_eq_add_one_of_ne_zero (n := rounds) (by omega)
  induction h generalizing rounds with
  | fallsOff hi =>
    rw [Body.runFrom_of_none hi]
    exact ⟨rfl, .nothing hlimit rfl, rfl⟩
  | fails hi hinstr =>
    obtain ⟨hx, hspends⟩ := (Describes.instr hcall b _ _ _).sound hlimit hinstr
    rw [Body.runFrom_of_some hi]
    exact ⟨(bind_of_error _ hx.symm).symm, hspends⟩
  | finishes hi hinstr =>
    obtain ⟨hx, hspends⟩ := (Describes.instr hcall b _ _ _).sound hlimit hinstr
    rw [Body.runFrom_of_some hi, bind_of_ok _ hx.symm]
    exact ⟨rfl, hspends⟩
  | goesOn hi hinstr hrest ih =>
    have hlt := lt_steps_of_instr hcall hinstr
    obtain ⟨hx, hdone⟩ := (Describes.instr hcall b _ _ _).sound hlimit hinstr
    have hready := hdone.1.limited
    obtain ⟨rounds, rfl⟩ := Nat.exists_eq_add_one_of_ne_zero (n := rounds) (by omega)
    obtain ⟨rfl, hallows⟩ := ih hready rounds (by omega)
    rw [Body.runFrom_of_some hi, bind_of_ok _ hx.symm]
    exact ⟨rfl, .append hdone hallows⟩

/-- The courses of a body are those of its loop with one round more than the budget allows. -/
theorem body (b : Body) (frame : Frame) :
    (spending limit depth).Describes known (b.Goes limit calls frame 0)
      (b.runFrom limit call (limit + 1) frame 0) where
  total hknown s hlimit := exists_goes hcall hknown b hlimit (by omega)
  sound hlimit h := eq_runFrom_of_goes hcall h hlimit (by omega)

end

variable {setup : Setup}

/-- A method is described if the methods that it calls are. -/
theorem method {run : Nat → String → Method → List Value → Course Happening (Option Value)}
    {depth : Nat}
    (hrun : depth ≤ maxDepth → ∀ owner m args,
      (spending setup.stepLimit (maxDepth - depth)).Describes known (run (depth + 1) owner m args)
        (setup.execute (maxDepth - depth) owner m args))
    (owner : String) (m : Method) (args : List Value) :
    (spending setup.stepLimit (maxDepth + 1 - depth)).Describes known
      (setup.methodCourse run depth owner m args)
      (setup.execute (maxDepth + 1 - depth) owner m args) := by
  rw [Setup.methodCourse]
  by_cases hdepth : maxDepth < depth
  · rw [if_pos hdepth, Nat.sub_eq_zero_of_le hdepth]
    exact .of_quiet (.throw _)
  · have hle : depth ≤ maxDepth := Nat.le_of_not_lt hdepth
    rw [if_neg hdepth, Nat.succ_sub hle, Setup.execute]
    split
    · exact .of_quiet (.throw _)
    · exact .framed (.body (.dispatch (hrun hle)) m.body _)

/-- What a course of a method gives and logs does not depend on how deep its calls nest. -/
theorem sound_of_executes {depth : Nat} {owner : String} {m : Method} {args : List Value}
    {s : MachineState} {log : List Happening}
    {r : EStateM.Result Fault MachineState (Option Value)}
    (h : setup.Executes depth owner m args s log r) (hlimit : s.steps ≤ setup.stepLimit) :
    r = setup.execute (maxDepth + 1 - depth) owner m args s ∧
      (spending setup.stepLimit (maxDepth + 1 - depth)).Allows s log r := by
  induction h with
  | @of_calls run _ depth owner m args s log r h ih =>
    have hrun : ∀ owner m args, (spending setup.stepLimit (maxDepth - depth)).Describes False
        (run (depth + 1) owner m args) (setup.execute (maxDepth - depth) owner m args) := by
      intro owner m args
      rw [← Nat.add_sub_add_right maxDepth 1 depth]
      exact ⟨False.elim, fun hready hcourse => ih hcourse hready⟩
    exact (Describes.method (fun _ => hrun) owner m args).sound hlimit h

/-- Every method has a course.  Each call leaves room for one call less, and a method that is too
deep calls none. -/
theorem exists_executes (depth : Nat) (owner : String) (m : Method) (args : List Value)
    {s : MachineState} (hlimit : s.steps ≤ setup.stepLimit) :
    ∃ log, setup.Executes depth owner m args s log
      (setup.execute (maxDepth + 1 - depth) owner m args s) := by
  have hrun : depth ≤ maxDepth → ∀ owner m args,
      (spending setup.stepLimit (maxDepth - depth)).Describes True
        (setup.Executes (depth + 1) owner m args)
        (setup.execute (maxDepth - depth) owner m args) := by
    intro hdepth owner m args
    rw [← Nat.add_sub_add_right maxDepth 1 depth]
    refine ⟨fun _ s hready => ?_, fun hready h => sound_of_executes h hready⟩
    exact exists_executes (depth + 1) owner m args hready
  obtain ⟨log, h⟩ := (Describes.method hrun owner m args).total trivial s hlimit
  exact ⟨log, .of_calls id h⟩
termination_by maxDepth + 1 - depth

theorem executes (depth : Nat) (owner : String) (m : Method) (args : List Value) :
    (spending setup.stepLimit (maxDepth + 1 - depth)).Describes True
      (setup.Executes depth owner m args) (setup.execute (maxDepth + 1 - depth) owner m args) where
  total _ _ hlimit := exists_executes depth owner m args hlimit
  sound hlimit h := sound_of_executes h hlimit

end Account.Describes

/-! ## Runs at the top level -/

/-- The log of a run at the top level stays within the limits of the machine. -/
structure WithinLimits (limit : Nat) (log : List Happening) : Prop where
  /-- All frames together execute no more instructions than the budget has. -/
  executed : (Usage.afterAll {} log).executed ≤ limit
  /-- At no moment are more frames active than may be nested. -/
  active : ∀ p, p <+: log → (Usage.afterAll {} p).active ≤ maxDepth + 1

theorem MachineState.Spends.withinLimits {limit : Nat} {s t : MachineState} {log : List Happening}
    (h : s.rewound.Spends limit (maxDepth + 1) log t) :
    t.usage = Usage.afterAll {} log ∧ WithinLimits limit log := by
  refine ⟨h.used, (congrArg Usage.executed h.used).symm.trans_le h.limited, fun p hp => ?_⟩
  exact (h.shallow p hp).trans_eq (Nat.zero_add _)

/-- The account of several runs at the top level, all within the limits. -/
def Account.limited (limit : Nat) : Account (List Happening) where
  ready _ := True
  done _ logs _ := ∀ log ∈ logs, WithinLimits limit log
  failed _ logs _ := ∀ log ∈ logs, WithinLimits limit log
  ready_of_done _ := trivial
  nothing _ _ := ⟨fun _ h => absurd h List.not_mem_nil, fun _ h => absurd h List.not_mem_nil⟩
  done_trans h h' log hlog := (List.mem_append.1 hlog).elim (h log) (h' log)
  failed_trans h h' log hlog := (List.mem_append.1 hlog).elim (h log) (h' log)

namespace Account.Describes

variable {α : Type} {limit : Nat} {C : Course Happening α} {x : MachineM α}

/-- A run at the top level starts with a fresh budget, so it can always go ahead. -/
theorem atTop (h : (spending limit (maxDepth + 1)).Describes True C x) (s : MachineState) :
    (∃ log, C s.rewound log (x s.rewound)) ∧ ∀ log r, C s.rewound log r →
      r = x s.rewound ∧ (stateAfter r).usage = Usage.afterAll {} log ∧ WithinLimits limit log := by
  refine ⟨h.total trivial _ (Nat.zero_le _), fun log r hlog => ?_⟩
  obtain ⟨hx, hallows⟩ := h.sound (Nat.zero_le _) hlog
  refine ⟨hx, ?_⟩
  cases r with
  | ok a t => exact hallows.1.withinLimits
  | error f t => exact MachineState.Spends.withinLimits hallows

theorem single (h : (spending limit (maxDepth + 1)).Describes True C x) :
    (limited limit).Describes True (.single fun s => C s.rewound) (fun s => x s.rewound) where
  total _ s _ := by
    obtain ⟨⟨log, hlog⟩, -⟩ := h.atTop s
    exact ⟨[log], log, rfl, hlog⟩
  sound := by
    rintro s _ r - ⟨log, rfl, hlog⟩
    obtain ⟨hx, -, hlimits⟩ := (h.atTop s).2 log r hlog
    have hall : ∀ l ∈ [log], WithinLimits limit l := by simpa using hlimits
    refine ⟨hx, ?_⟩
    cases r with
    | ok a t => exact hall
    | error f t => exact hall

variable (setup : Setup)

theorem executeTop (owner : String) (m : Method) (args : List Value) :
    (limited setup.stepLimit).Describes True (.single (setup.executeTopCourse owner m args))
      (setup.executeTop owner m args) :=
  .single (.executes 0 owner m args)

theorem runAll (methods : List (String × Method)) :
    (limited setup.stepLimit).Describes True (setup.runAllCourse methods)
      (setup.runAll methods) := by
  induction methods with
  | nil => exact .of_quiet (.pure ())
  | cons e rest ih => exact (Describes.executeTop setup e.1 e.2 []).bind fun _ => ih

theorem initializeStatics :
    (limited setup.stepLimit).Describes True setup.initializeCourse setup.initializeStatics := by
  refine .bind (.of_quiet .get) fun s => ?_
  split
  · exact .of_quiet (.pure ())
  · exact .bind (.of_quiet fun _ => rfl) fun _ => .runAll setup _

theorem runTest (owner : String) (m : Method) :
    (limited setup.stepLimit).Describes True (setup.runTestCourse owner m)
      (setup.runTest owner m) := by
  refine ((Describes.executeTop setup owner m []).attempted id).bind fun result => ?_
  cases result with
  | ok _ => exact .of_quiet (.pure _)
  | error f => exact .of_quiet (.pure _)

theorem runEach (methods : List (String × Method)) :
    (limited setup.stepLimit).Describes True (setup.runEachCourse methods)
      (setup.runEach methods) := by
  induction methods with
  | nil => exact .of_quiet (.pure [])
  | cons e rest ih =>
    exact (Describes.runTest setup e.1 e.2).bind fun run => ih.bind fun runs => .of_quiet (.pure _)

theorem runTests (settings : Settings) :
    (limited setup.stepLimit).Describes True (setup.runTestsCourse settings)
      (setup.runTests settings) :=
  (Describes.initializeStatics setup).bind fun _ => .runEach setup _

end Account.Describes

/-- Every call at the top level has a course, and so has every run of the tests with the static
initializers before them.  All courses give the result of the machine.  What they log, call by call
and test by test, is what the machine counts, and it stays within the limits. -/
theorem Setup.stops_within_limits (setup : Setup) :
    (∀ owner method args s,
      (∃ log, setup.invokeCourse owner method args s log (setup.invoke owner method args s)) ∧
        ∀ log r, setup.invokeCourse owner method args s log r →
          r = setup.invoke owner method args s ∧ (stateAfter r).usage = Usage.afterAll {} log ∧
            WithinLimits setup.stepLimit log) ∧
      ∀ settings s,
        (∃ logs, setup.runTestsCourse settings s logs (setup.runTests settings s)) ∧
          ∀ logs r, setup.runTestsCourse settings s logs r →
            r = setup.runTests settings s ∧ ∀ log ∈ logs, WithinLimits setup.stepLimit log := by
  constructor
  · intro owner method args
    exact (Account.Describes.dispatch (.executes 0) _ args).atTop
  · intro settings s
    have h := Account.Describes.runTests setup settings
    refine ⟨h.total trivial s trivial, fun logs r hlogs => ?_⟩
    obtain ⟨hx, hlimits⟩ := h.sound trivial hlogs
    refine ⟨hx, ?_⟩
    cases r with
    | ok a t => exact hlimits
    | error f t => exact hlimits

/-- A method that jumps to itself, and one that calls itself. -/
def runaways : Program :=
  ⟨[{ name := "Foo", methods :=
    [{ name := "jumps", returnType := .void, body := { instrs := [⟨⟨0⟩, 1, .goto ⟨0⟩⟩] } },
      { name := "calls", returnType := .void
        body := { instrs := [⟨⟨0⟩, 2, .invoke ⟨"Foo", "calls", .void⟩ []⟩] } }] }]⟩

-- Both limits are reached.
example : (stateAfter (Setup.invoke ⟨runaways, .none, 7⟩ "Foo" "jumps" [] {})).steps = 7 := rfl

example :
    (stateAfter (Setup.invoke ⟨runaways, .none, 1000⟩ "Foo" "calls" [] {})).deepest = 257 := by
  decide +kernel

end TraceWeave
