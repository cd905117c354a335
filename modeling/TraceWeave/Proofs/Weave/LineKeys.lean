import TraceWeave.Proofs.Text.Numerals
import TraceWeave.Proofs.Weave.LineAttribution

/-!
# Which lines get probes

A product phase adds one probe for each line that a method has to do with, that has an anchor in it,
and whose key the session does not know yet.  The key goes into the session if the method is kept,
and only then.  Keys determine their lines (`LineLedger.key_injective`), so a session logs exactly
the lines of the probes that were added, each once (`Session.Logs`), through any sequence of methods
and programs; `Plan.mem_newLineProbes_weaveMethod` says which lines those are, and
`Plan.productRuns_lines` puts both together.
-/

namespace TraceWeave

/-! ## Keys -/

/-- The last colon of a key stands between the file and the line, since a line is written in
digits. -/
theorem LineLedger.key_injective {file file' : String} {line line' : UInt32}
    (h : key file line = key file' line') : file = file' ∧ line = line' := by
  have hlists : file.toList ++ ':' :: (toString line.toNat).toList =
      file'.toList ++ ':' :: (toString line'.toNat).toList := by
    simpa [key] using congrArg String.toList h
  have hcolon : ∀ n : Nat, ':' ∉ (toString n).toList := Text.not_mem_numeral (by decide)
  obtain ⟨hfile, hline⟩ := Text.append_cons_inj hlists (hcolon _) (hcolon _)
  exact ⟨String.toList_inj.1 hfile, UInt32.toNat_inj.1 (Text.numeral_injective hline)⟩

/-! ## New line probes of a body -/

/-- The line that a line probe reports, with its file. -/
def Operation.probedLine? : Operation → Option (String × UInt32)
  | .probe (.lineReached file line) => some (file, line)
  | _ => none

theorem Operation.probedLine?_eq_some {op : Operation} {e : String × UInt32} :
    op.probedLine? = some e ↔ op = .probe (.lineReached e.1 e.2) := by
  constructor
  · intro h
    unfold probedLine? at h
    split at h <;> cases h
    rfl
  · rintro rfl
    rfl

/-- The line of a line probe that is new: no instruction had its label before. -/
def Instr.newLine? (old : List Label) (i : Instr) : Option (String × UInt32) :=
  if i.label ∈ old then none else i.op.probedLine?

theorem Instr.newLine?_of_mem {old : List Label} {i : Instr} (h : i.label ∈ old) :
    i.newLine? old = none := if_pos h

theorem Instr.newLine?_of_not_mem {old : List Label} {i : Instr} (h : i.label ∉ old) :
    i.newLine? old = i.op.probedLine? := if_neg h

theorem Instr.newLine?_retarget (old : List Label) (f : Label → Label) (i : Instr) :
    (i.retarget f).newLine? old = i.newLine? old := by
  have hop : (i.op.retarget f).probedLine? = i.op.probedLine? := by cases i.op <;> rfl
  simp only [newLine?, retarget, hop]

/-- The lines that the new line probes of a woven body report, in program order. -/
def Body.newLineProbes (original woven : Body) : List (String × UInt32) :=
  woven.instrs.filterMap (Instr.newLine? original.labels)

theorem Body.newLineProbes_self (b : Body) : b.newLineProbes b = [] := by
  rw [newLineProbes, List.filterMap_eq_nil_iff]
  exact fun i hi => Instr.newLine?_of_mem (List.mem_map_of_mem hi)

namespace ProductPhase

variable {plan : Plan} {target : MethodTarget} {w w' : Workpiece} {added : List (UInt32 × Label)}
  {b : Body} {y y' : Layout} (h : ProductPhase plan target w w' added b y y')

include h

/-- The field weaver adds no line probe. -/
theorem newLineProbes_eq_of_field : w.body.newLineProbes w'.body = w.body.newLineProbes b := by
  rw [Body.newLineProbes, Body.newLineProbes, h.instrs_eq',
    List.filterMap_eq_flatMap_toList, List.filterMap_eq_flatMap_toList]
  refine Layout.flatMap_flatMap_emit h.slots' _ ?_
  rintro i s hs ⟨rfl, hops⟩
  have hwoven : (s.woven.map wovenInstr).filterMap (Instr.newLine? w.body.labels) = [] := by
    rw [List.filterMap_eq_nil_iff]
    intro x hx
    obtain ⟨e, he, rfl⟩ := List.mem_map.1 hx
    obtain ⟨n, field, hop⟩ := hops e.2 (List.mem_map_of_mem he)
    rw [Instr.newLine?, wovenInstr_op, hop]
    exact ite_self none
  rw [← List.filterMap_eq_flatMap_toList, Slot.emit, List.filterMap_append, hwoven,
    List.nil_append, List.filterMap_cons, Instr.newLine?_retarget]
  cases s.instr.newLine? w.body.labels <;> rfl

/-- The new line probes are those of the lines that were added, each before its anchor. -/
theorem newLineProbes_eq : w.body.newLineProbes w'.body = w.body.instrs.flatMap fun i =>
    (added.filter fun e => e.2 = i.label).map fun e => (target.file, e.1) := by
  rw [h.newLineProbes_eq_of_field, Body.newLineProbes, h.instrs_eq,
    List.filterMap_eq_flatMap_toList]
  refine Layout.flatMap_flatMap_emit h.slots _ ?_
  rintro i s hs ⟨ops, hops, hbranches⟩
  have hold : (s.instr.retarget y.destination).label ∈ w.body.labels :=
    h.origins_eq ▸ Layout.mem_origins_of_mem hs
  -- What was woven into the slot is new.
  have hwoven : (s.woven.map wovenInstr).filterMap (Instr.newLine? w.body.labels) =
      s.ops.filterMap Operation.probedLine? := by
    rw [Slot.ops, List.filterMap_map, List.filterMap_map]
    refine List.filterMap_congr fun e he => Instr.newLine?_of_not_mem fun hmem => ?_
    exact Layout.woven_ne_origin h.layout_nodup (Layout.mem_woven_of_mem_slot hs he)
      (h.origins_eq.symm ▸ hmem) rfl
  have hothers : ops.filterMap Operation.probedLine? = [] := by
    rw [List.filterMap_eq_nil_iff]
    intro op hop
    rw [Option.eq_none_iff_forall_not_mem]
    intro e he
    rw [Operation.probedLine?_eq_some.1 he] at hop
    exact Product.lineReached_not_mem_of_branches hbranches _ _ hop
  rw [← List.filterMap_eq_flatMap_toList, Slot.emit, List.filterMap_append, hwoven,
    List.filterMap_cons_none (Instr.newLine?_of_mem hold), hops, List.filterMap_append, hothers,
    Product.lineProbes, List.filterMap_map]
  simp [Function.comp_def, Operation.probedLine?]

/-- The lines that were added are different. -/
theorem added_inj {e e' : UInt32 × Label} (he : e ∈ added) (he' : e' ∈ added) (hline : e.1 = e'.1) :
    e = e' :=
  List.inj_on_of_nodup_map h.reserves.distinct he he' (congrArg (LineLedger.key target.file) hline)

theorem exists_instr_of_mem_added {e : UInt32 × Label} (he : e ∈ added) :
    ∃ i ∈ w.body.instrs, i.label = e.2 := by
  obtain ⟨n, -, heq⟩ := List.mem_map.1 (h.reserves.sound e he)
  obtain ⟨-, hfind⟩ := Prod.mk.inj heq
  obtain ⟨i, hi, hlabel, -⟩ := AnchorFinder.exists_instr_of_find? hfind
  exact ⟨i, hi, hlabel⟩

theorem mem_newLineProbes {file : String} {line : UInt32} :
    (file, line) ∈ w.body.newLineProbes w'.body ↔
      file = target.file ∧ ∃ anchor, (line, anchor) ∈ added := by
  simp only [h.newLineProbes_eq, List.mem_flatMap, List.mem_map, List.mem_filter,
    decide_eq_true_eq]
  constructor
  · rintro ⟨i, hi, e, ⟨he, -⟩, heq⟩
    cases heq
    exact ⟨rfl, e.2, he⟩
  · rintro ⟨rfl, anchor, he⟩
    obtain ⟨i, hi, hlabel⟩ := h.exists_instr_of_mem_added he
    exact ⟨i, hi, (line, anchor), ⟨he, hlabel.symm⟩, rfl⟩

theorem newLineProbes_nodup : (w.body.newLineProbes w'.body).Nodup := by
  rw [h.newLineProbes_eq, List.nodup_flatMap]
  constructor
  · intro i hi
    refine List.Nodup.map_on ?_ (List.Nodup.filter _ (List.Nodup.of_map _ h.reserves.distinct))
    intro e he e' he' heq
    exact h.added_inj (List.mem_of_mem_filter he) (List.mem_of_mem_filter he')
      (Prod.mk.inj heq).2
  · -- One line has one anchor, and one label has one instruction.
    have hlabels : w.body.instrs.Pairwise fun i j => i.label ≠ j.label :=
      List.pairwise_map.1 h.origins_nodup
    refine hlabels.imp fun {i j} hne x hxi hxj => hne ?_
    obtain ⟨e, he, rfl⟩ := List.mem_map.1 hxi
    obtain ⟨e', he', heq⟩ := List.mem_map.1 hxj
    obtain ⟨he, hi⟩ := List.mem_filter.1 he
    obtain ⟨he', hj⟩ := List.mem_filter.1 he'
    rw [← of_decide_eq_true hi, ← of_decide_eq_true hj,
      h.added_inj he' he (Prod.mk.inj heq).2]

/-- A line is added exactly if the weaver has to do with it, it has an anchor, and the ledger does
not know its key. -/
theorem exists_mem_added_iff (hpending : w.ledger.pending = []) {line : UInt32} :
    (∃ anchor, (line, anchor) ∈ added) ↔
      line ∈ Product.linesIn plan.settings plan.lines target w.body ∧
        ((AnchorFinder.ofBody w.body).find? line).isSome ∧
        LineLedger.key target.file line ∉ w.ledger.committed := by
  constructor
  · rintro ⟨anchor, he⟩
    obtain ⟨n, hn, heq⟩ := List.mem_map.1 (h.reserves.sound _ he)
    obtain ⟨rfl, hfind⟩ := Prod.mk.inj heq
    have hfresh := h.reserves.fresh _ he
    exact ⟨hn, by rw [hfind]; rfl, by simpa [LineLedger.contains, hpending] using hfresh⟩
  · rintro ⟨hline, hfind, hfree⟩
    obtain ⟨anchor, hanchor⟩ := Option.isSome_iff_exists.1 hfind
    have hknown := h.reserves.known line anchor (List.mem_map.2 ⟨line, hline, by rw [hanchor]⟩)
    rw [LineLedger.contains, Bool.or_eq_true, List.contains_iff_mem, List.contains_iff_mem,
      h.reserves.committed, h.reserves.pending, hpending, List.nil_append] at hknown
    obtain ⟨e, he, hkey⟩ := List.mem_map.1 (hknown.resolve_left hfree)
    obtain ⟨-, rfl⟩ := LineLedger.key_injective hkey
    exact ⟨e.2, he⟩

end ProductPhase

/-! ## Skipped methods -/

/-- A method that one weaver does not skip is not skipped. -/
theorem ReportEntry.isSkipped_of_mem {owner : String} {outcomes : List Outcome} {o : Outcome}
    (ho : o ∈ outcomes) (hnone : skipReason? o = none) :
    (processed owner outcomes).isSkipped = false := by
  have hne : (outcomes.filterMap skipReason?).length ≠ outcomes.length := by
    intro hlength
    have := List.length_filterMap_lt_length_iff_exists.2 ⟨o, ho, hnone⟩
    omega
  have hreasons : skipReasons (processed owner outcomes) = [] := if_neg hne
  rw [isSkipped, hreasons]
  rfl

/-! ## What a session logs -/

/-- From the first session to the second one, exactly some lines were logged, none of them twice and
none that was logged before. -/
structure Session.Logs (lines : List (String × UInt32)) (s s' : Session) : Prop where
  nodup : lines.Nodup
  fresh : ∀ e ∈ lines, s.isLogged (LineLedger.key e.1 e.2) = false
  logged : ∀ key, s'.isLogged key = true ↔
    s.isLogged key = true ∨ ∃ e ∈ lines, LineLedger.key e.1 e.2 = key

namespace Session.Logs

variable {lines lines' : List (String × UInt32)} {s s₁ s₂ : Session}

theorem nil (s : Session) : Logs [] s s := ⟨.nil, by simp, by simp⟩

theorem append (h : Logs lines s s₁) (h' : Logs lines' s₁ s₂) : Logs (lines ++ lines') s s₂ := by
  have hlogged : ∀ e ∈ lines, s₁.isLogged (LineLedger.key e.1 e.2) = true := fun e he =>
    (h.logged _).2 (.inr ⟨e, he, rfl⟩)
  refine ⟨List.nodup_append.2 ⟨h.nodup, h'.nodup, ?_⟩, fun e he => ?_, fun key => ?_⟩
  · rintro e he e' he' rfl
    exact absurd (hlogged e he) (by simp [h'.fresh e he'])
  · rcases List.mem_append.1 he with he | he
    · exact h.fresh e he
    · have hfresh := h'.fresh e he
      by_contra hbefore
      rw [(h.logged _).2 (.inl (by simpa using hbefore))] at hfresh
      cases hfresh
  · rw [h'.logged, h.logged]
    simp only [List.mem_append, or_and_right, exists_or, or_assoc]

end Session.Logs

namespace Plan

variable {plan : Plan}

theorem weaveMethod_logs (c : Class) (m : Method) (s : Session) :
    Session.Logs (m.body.newLineProbes (plan.weaveMethod productWeavers c m s).1.body) s
      (plan.weaveMethod productWeavers c m s).2.1 := by
  rw [weaveMethod]
  cases happly : plan.applyAll (.of c m) productWeavers ⟨m.body, ⟨s.keys, []⟩⟩ with
  | error f =>
    rw [Body.newLineProbes_self]
    exact .nil s
  | ok result =>
    obtain ⟨outcomes, w⟩ := result
    obtain ⟨added, b, y, y', hphase⟩ := exists_productPhase happly
    refine ⟨hphase.newLineProbes_nodup, ?_, fun key => ?_⟩
    · rintro ⟨file, line⟩ he
      obtain ⟨rfl, hadded⟩ := hphase.mem_newLineProbes.1 he
      have hfree := ((hphase.exists_mem_added_iff rfl).1 hadded).2.2
      simpa [Session.isLogged] using hfree
    · have hpending : w.ledger.pending =
          added.map fun e => LineLedger.key (MethodTarget.of c m).file e.1 :=
        hphase.reserves.pending
      simp only [Session.isLogged, Session.commit, List.contains_iff_mem, List.mem_append, hpending]
      refine or_congr_right ?_
      constructor
      · intro hkey
        obtain ⟨e, he, rfl⟩ := List.mem_map.1 hkey
        exact ⟨_, hphase.mem_newLineProbes.2 ⟨rfl, e.2, he⟩, rfl⟩
      · rintro ⟨⟨file, line⟩, he, rfl⟩
        obtain ⟨rfl, anchor, hadded⟩ := hphase.mem_newLineProbes.1 he
        exact List.mem_map.2 ⟨_, hadded, rfl⟩

/-! ### Which lines a method gets -/

/-- The product phase leaves a method out exactly if it is no product code. -/
theorem isSkipped_iff {target : MethodTarget} {w w' : Workpiece} {outcomes : List Outcome}
    (h : plan.applyAll target productWeavers w = .ok (outcomes, w')) (owner : String) :
    (ReportEntry.processed owner outcomes).isSkipped = false ↔
      productSkip? plan.settings target = none := by
  obtain ⟨first, w₁, _, hproduct, -, hrest, rfl⟩ := applyAll_cons_eq_ok.1 h
  obtain ⟨second, w₂, _, hfield, -, hlast, rfl⟩ := applyAll_cons_eq_ok.1 hrest
  cases hlast
  have hfirst := (Product.weave_reports hproduct).skipReason?_eq
  have hsecond := (FieldAccess.weave_reports (onBody_eq_ok hfield).1).skipReason?_eq
  cases hskip : productSkip? plan.settings target with
  | some reason =>
    simp [ReportEntry.isSkipped, ReportEntry.skipReasons, hfirst, hsecond, hskip]
  | none =>
    exact iff_of_true (ReportEntry.isSkipped_of_mem List.mem_cons_self (hfirst.trans hskip)) rfl

/-- A method of which this was reported gets a probe for the line in this session: the method was
neither skipped nor rolled back, the line is requested for its file and near one of its lines, it
has an anchor, and the session does not know its key. -/
structure Gets (plan : Plan) (entry : ReportEntry) (s : Session) (c : Class) (m : Method)
    (file : String) (line : UInt32) : Prop where
  kept : entry.failure? = none
  notSkipped : entry.isSkipped = false
  file_eq : file = c.sourcePath
  requested : line ∈ plan.lines.linesFor file
  near : ∃ i ∈ m.body.instrs, ∃ n, i.sourceLine? = some n ∧
    Product.distance n line ≤ plan.settings.lineTolerance
  anchored : ((AnchorFinder.ofBody m.body).find? line).isSome
  free : s.isLogged (LineLedger.key file line) = false

theorem mem_newLineProbes_weaveMethod (c : Class) (m : Method) (s : Session) {file : String}
    {line : UInt32} :
    (file, line) ∈ m.body.newLineProbes (plan.weaveMethod productWeavers c m s).1.body ↔
      plan.Gets (plan.weaveMethod productWeavers c m s).2.2 s c m file line := by
  rw [weaveMethod]
  cases happly : plan.applyAll (.of c m) productWeavers ⟨m.body, ⟨s.keys, []⟩⟩ with
  | error f =>
    rw [Body.newLineProbes_self]
    refine ⟨fun h => (by cases h), fun h => ?_⟩
    cases h.kept
  | ok result =>
    obtain ⟨outcomes, w⟩ := result
    obtain ⟨added, b, y, y', hphase⟩ := exists_productPhase happly
    have hskipped := isSkipped_iff happly c.name
    have hadded : (∃ anchor, (line, anchor) ∈ added) ↔ _ := hphase.exists_mem_added_iff rfl
    rw [Product.mem_linesIn, LineSet.mem_toList, ← hskipped] at hadded
    have hfree : s.isLogged (LineLedger.key c.sourcePath line) = false ↔
        LineLedger.key c.sourcePath line ∉ s.keys := by simp [Session.isLogged]
    rw [hphase.mem_newLineProbes, hadded]
    constructor
    · rintro ⟨rfl, ⟨hskip, hrequested, hnear⟩, hanchored, hnew⟩
      exact ⟨rfl, hskip, rfl, hrequested, hnear, hanchored, hfree.2 hnew⟩
    · rintro ⟨-, hskip, rfl, hrequested, hnear, hanchored, hnew⟩
      exact ⟨rfl, ⟨hskip, hrequested, hnear⟩, hanchored, hfree.1 hnew⟩

/-! ### Sequences of programs -/

/-- The lines that the new line probes of woven methods report, method by method. -/
def newLineProbes (before : List (Class × Method)) (after : List Method) :
    List (String × UInt32) :=
  (before.zip after).flatMap fun e => e.1.2.body.newLineProbes e.2.body

theorem weaveEach_logs (l : List (Class × Method)) (s : Session) :
    Session.Logs (newLineProbes l (plan.weaveEach productWeavers l s).1) s
      (plan.weaveEach productWeavers l s).2.1 := by
  induction l generalizing s with
  | nil => exact .nil s
  | cons e rest ih => exact (weaveMethod_logs e.1 e.2 s).append (ih _)

/-- Runs the product phase on programs one after another, each in the session that the one before
has left.  The result is the lines of the line probes that were inserted, and the last session. -/
def productRuns : List (Plan × Program) → Session → List (String × UInt32) × Session
  | [], s => ([], s)
  | (plan, p) :: rest, s =>
    let (woven, s, _) := plan.weaveProduct p s
    let (lines, s) := productRuns rest s
    (newLineProbes p.methodList (woven.classes.flatMap (·.methods)) ++ lines, s)

theorem productRuns_logs (runs : List (Plan × Program)) (s : Session) :
    Session.Logs (productRuns runs s).1 s (productRuns runs s).2 := by
  induction runs generalizing s with
  | nil => exact .nil s
  | cons run rest ih =>
    obtain ⟨hmethods, hsession, -⟩ := run.1.weave_eq productWeavers run.2 s
    have hrun := run.1.weaveEach_logs run.2.methodList s
    rw [← hmethods, ← hsession] at hrun
    exact hrun.append (ih _)

/-- Over any sequence of programs in one session, a method gets one new probe for each line that it
should get, and no other new line probe.  So no line is probed twice, and in the end the session
knows exactly the keys of the probed lines. -/
theorem productRuns_lines (runs : List (Plan × Program)) :
    (∀ before after plan p, runs = before ++ (plan, p) :: after →
      ∀ s, s = (productRuns before ∅).2 → ∀ (k : Nat) (c : Class) (m m' : Method) entry,
        p.methodList[k]? = some (c, m) →
        ((plan.weaveProduct p s).1.classes.flatMap (·.methods))[k]? = some m' →
        (plan.weaveProduct p s).2.2.entries[k]? = some entry →
        (m.body.newLineProbes m'.body).Nodup ∧ ∀ file line,
          (file, line) ∈ m.body.newLineProbes m'.body ↔
            plan.Gets entry (plan.sessionAt productWeavers p s k) c m file line) ∧
      (productRuns runs ∅).1.Nodup ∧
      ∀ file line, (productRuns runs ∅).2.isLogged (LineLedger.key file line) = true ↔
        (file, line) ∈ (productRuns runs ∅).1 := by
  have hlogs := productRuns_logs runs ∅
  refine ⟨?_, hlogs.nodup, fun file line => ?_⟩
  · rintro before after plan p - s - k c m m' entry hk hm' hentry
    rw [weaveProduct, plan.getElem?_methods_weave _ s hk, Option.some.injEq] at hm'
    rw [weaveProduct, plan.getElem?_entries_weave _ s hk, Option.some.injEq] at hentry
    subst hm' hentry
    exact ⟨(weaveMethod_logs c m _).nodup, fun file line => mem_newLineProbes_weaveMethod c m _⟩
  · rw [hlogs.logged]
    constructor
    · rintro (h | ⟨e, he, hkey⟩)
      · cases h
      · obtain ⟨rfl, rfl⟩ := LineLedger.key_injective hkey
        exact he
    · exact fun he => .inr ⟨_, he, rfl⟩

/-- The first of two methods near line 6 gets the probe in the first run, and nothing is left for
the second run. -/
theorem productRuns_neighbours :
    (productRuns [(requestingSix, neighbours), (requestingSix, neighbours)] ∅).1 =
        [("Foo.java", 6)] ∧
      (productRuns [(requestingSix, neighbours), (requestingSix, neighbours)] ∅).2.isLogged
        "Foo.java:6" = true ∧
      ∀ file line, (file, line) ∈ (onLine "near" 5).body.newLineProbes nearProbed.body ↔
        requestingSix.Gets (.processed "Foo" [.woven 1, .unchanged]) ∅
          { name := "Foo", sourceFile := some "Foo.java",
            methods := [onLine "near" 5, onLine "exact" 6] } (onLine "near" 5) file line := by
  obtain ⟨hmethods, -, hlogged⟩ :=
    productRuns_lines [(requestingSix, neighbours), (requestingSix, neighbours)]
  have hlines : (productRuns [(requestingSix, neighbours), (requestingSix, neighbours)] ∅).1 =
      [("Foo.java", 6)] := rfl
  refine ⟨hlines, (hlogged "Foo.java" 6).2 (hlines ▸ List.mem_singleton_self _), ?_⟩
  exact (hmethods [] [(requestingSix, neighbours)] requestingSix neighbours rfl ∅ rfl 0 _ _ _ _
    rfl rfl rfl).2

end Plan

end TraceWeave
