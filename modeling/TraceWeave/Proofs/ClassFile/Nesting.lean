import TraceWeave.ClassFile.Program
import TraceWeave.Proofs.ClassFile.Terms

/-!
# How deep written documents are

What was read with some levels of nesting is written with no more: the written form of a term is the
flattest that readers take, because a record may be read from other documents but is written as one
object, and a variant without content is written as its name alone.
-/

namespace TraceWeave

open Json

variable {α : Type} {levels : Nat} {j : Json}

/-! ## Readers -/

/-- Whatever is read has a property. -/
def Yields (P : α → Prop) (o : Option α) : Prop := ∀ x, o = some x → P x

namespace Yields

variable {β : Type} {P : β → Prop}

theorem none : Yields P none := nofun

theorem pure {x : β} (h : P x) : Yields P (some x) := by
  rintro _ ⟨⟩
  exact h

theorem map {o : Option α} {f : α → β} (h : ∀ a, o = some a → P (f a)) : Yields P (o.map f) := by
  intro x hx
  obtain ⟨a, ha, rfl⟩ := Option.map_eq_some_iff.1 hx
  exact h a ha

theorem bind {o : Option α} {f : α → Option β} (h : ∀ a, o = some a → Yields P (f a)) :
    Yields P (o >>= f) := by
  intro x hx
  obtain ⟨a, ha, hx⟩ := Option.bind_eq_some_iff.1 hx
  exact h a ha x hx

/-- What comes after does not depend on what was read. -/
theorem skip {o : Option α} {f : α → Option β} (h : ∀ a, Yields P (f a)) : Yields P (o >>= f) :=
  bind fun a _ => h a

end Yields

/-- What is read with some levels of nesting is written with no more. -/
def WritesWithin (read : Nat → Json → Option α) (write : α → Json) : Prop :=
  ∀ levels j, Yields (fun x => (write x).depth ≤ levels) (read levels j)

theorem depth_record_succ {members : List (String × Json)} {n : Nat} :
    (record members).depth ≤ n + 1 ↔ members.Forall (·.2.depth ≤ n) := by
  simp only [depth_record_le, Nat.add_right_cancel_iff, exists_eq_left']

theorem depth_array_succ {items : List Json} {n : Nat} :
    (Json.array items).depth ≤ n + 1 ↔ ∀ j ∈ items, j.depth ≤ n := by
  simp only [depth_array_le, Nat.add_right_cancel_iff, exists_eq_left']

theorem depth_variant_record {name : String} {members : List (String × Json)} {n : Nat} :
    (variant name (record members)).depth ≤ n + 2 ↔ members.Forall (·.2.depth ≤ n) :=
  depth_record_succ.trans depth_record_succ

theorem exists_mem_of_mapM {β : Type} {f : α → Option β} {l : List α} {l' : List β}
    (h : l.mapM f = some l') : ∀ b ∈ l', ∃ a ∈ l, f a = some b := by
  induction l generalizing l' with
  | nil =>
    cases h
    simp
  | cons a l ih =>
    rw [List.mapM_cons] at h
    obtain ⟨b, hb, h⟩ := Option.bind_eq_some_iff.1 h
    obtain ⟨l'', hl, h⟩ := Option.bind_eq_some_iff.1 h
    cases h
    rw [List.forall_mem_cons]
    refine ⟨⟨a, List.mem_cons_self, hb⟩, fun c hc => ?_⟩
    obtain ⟨d, hd, hdc⟩ := ih hl c hc
    exact ⟨d, List.mem_cons_of_mem a hd, hdc⟩

namespace WritesWithin

variable {read : Nat → Json → Option α} {write : α → Json}

theorem depth_le (h : WritesWithin read write) {x : α} (hx : read levels j = some x) :
    (write x).depth ≤ levels := h levels j x hx

/-- A record is read with one level more than its members. -/
theorem of_members (hzero : ∀ j, read 0 j = none)
    (h : ∀ levels j, Yields (fun x => (write x).depth ≤ levels + 1) (read (levels + 1) j)) :
    WritesWithin read write := by
  intro levels j
  cases levels with
  | zero =>
    rw [hzero]
    exact .none
  | succ levels => exact h levels j

theorem list (h : WritesWithin read write) :
    WritesWithin (list? read) fun l => .array (l.map write) := by
  refine .of_members (fun _ => rfl) fun levels j => ?_
  cases j with
  | array items =>
    intro l hl
    refine depth_array_succ.2 (List.forall_mem_map.2 fun x hx => ?_)
    obtain ⟨item, -, hitem⟩ := exists_mem_of_mapM hl x hx
    exact h.depth_le hitem
  | _ => exact .none

theorem nullable (h : WritesWithin read write) :
    WritesWithin (fun levels => nullable? (read levels)) fun o => (o.map write).getD .null := by
  intro levels j
  cases j with
  | null => exact .pure (Nat.zero_le levels)
  | _ => exact .map fun x hx => h.depth_le hx

/-- A list that may be missing is written anyway. -/
theorem listOr (h : WritesWithin read write) {field : Option Json} {l : List α}
    (hl : fieldOr [] (list? read levels) field = some l) (hlevels : 0 < levels) :
    (Json.array (l.map write)).depth ≤ levels := by
  cases field with
  | none =>
    cases hl
    exact hlevels
  | some j => exact h.list.depth_le hl

end WritesWithin

/-! ## Types and names -/

theorem Ty.toJson_of_plain : ∀ t ∈ Ty.plain, t.toJson.depth = 0 := by decide

theorem Ty.yields_ofName? (levels : Nat) (name : String) :
    Yields (fun t => t.toJson.depth ≤ levels) (Ty.ofName? name) := by
  intro t h
  rw [Ty.toJson_of_plain t (List.mem_of_find?_eq_some h)]
  exact Nat.zero_le levels

theorem Ty.writesWithin : WritesWithin Ty.ofJson? Ty.toJson := by
  intro levels j
  fun_induction Ty.ofJson? with
  | case1 levels name => exact yields_ofName? levels name
  | case2 levels content => exact .map fun name _ => depth_record_succ.2 (Nat.zero_le levels)
  | case3 levels content ih =>
    exact .map fun element helement => depth_record_succ.2 (ih element helement)
  | case4 => exact yields_ofName? _ _
  | case5 => exact .none
  | case6 => exact .none

theorem Local.writesWithin : WritesWithin Local.ofJson? Local.toJson := by
  refine .of_members (fun _ => rfl) fun levels j => ?_
  refine .skip fun fields => ?_
  split
  · refine .skip fun name => .bind fun ty hty => .pure ?_
    exact depth_record_succ.2 ⟨Nat.zero_le levels, Ty.writesWithin.depth_le hty⟩
  · exact .none

theorem FieldRef.writesWithin : WritesWithin FieldRef.ofJson? FieldRef.toJson := by
  refine .of_members (fun _ => rfl) fun levels j => ?_
  refine .skip fun fields => ?_
  split
  · refine .skip fun owner => .skip fun name => .bind fun ty hty => .pure ?_
    exact depth_record_succ.2 ⟨Nat.zero_le levels, Nat.zero_le levels, Ty.writesWithin.depth_le hty⟩
  · exact .none

theorem Callee.writesWithin : WritesWithin Callee.ofJson? Callee.toJson := by
  refine .of_members (fun _ => rfl) fun levels j => ?_
  refine .skip fun fields => ?_
  split
  · refine .skip fun owner => .skip fun method => .bind fun ty hty => .pure ?_
    exact depth_record_succ.2 ⟨Nat.zero_le levels, Nat.zero_le levels, Ty.writesWithin.depth_le hty⟩
  · exact .none

/-! ## Expressions -/

theorem FloatForm.depth_file_single (x : Float32) : (file.single x).depth ≤ levels := by
  cases h : Floating.single.numeral? singleLayout x.toBits.toNat <;> simp [file, h, depth]

theorem FloatForm.depth_file_double (x : Float) : (file.double x).depth ≤ levels := by
  cases h : Floating.double.numeral? doubleLayout x.toBits.toNat <;> simp [file, h, depth]

/-- A constant is a variant without parts. -/
theorem Value.depth_toJson_le (v : Value) : (v.toJson .file).depth ≤ levels + 1 := by
  cases v with
  | float x => exact depth_record_succ.2 (FloatForm.depth_file_single x)
  | double x => exact depth_record_succ.2 (FloatForm.depth_file_double x)
  | null => exact Nat.zero_le _
  | _ => exact depth_record_succ.2 (Nat.zero_le levels)

theorem Value.writesWithin : WritesWithin Value.ofJson? (Value.toJson .file) := by
  intro levels j
  rw [ofJson?.eq_def]
  split
  · exact .pure (Nat.zero_le _)
  · exact fun v _ => v.depth_toJson_le
  · exact .none

theorem Expr.writesWithin : WritesWithin Expr.ofJson? (Expr.toJson .file) := by
  intro levels
  -- The parts of a node are read with two levels less, and the arguments of a call with three.
  induction levels using Nat.strongRecOn with
  | ind levels ih =>
    intro j
    rw [ofJson?.eq_def]
    split
    next levels node content =>
      split
      next levels =>
        exact .map fun v hv => depth_record_succ.2 (Value.writesWithin.depth_le hv)
      next levels =>
        exact .map fun x hx => depth_record_succ.2 (Local.writesWithin.depth_le hx)
      next levels =>
        refine .skip fun fields => ?_
        split
        · refine .skip fun op => .bind fun e he => .pure ?_
          exact depth_variant_record.2 ⟨Nat.zero_le _, ih levels (by omega) _ e he⟩
        · exact .none
      next levels =>
        refine .skip fun fields => ?_
        split
        · refine .skip fun op => .bind fun l hl => .bind fun r hr => .pure ?_
          exact depth_variant_record.2
            ⟨Nat.zero_le _, ih levels (by omega) _ l hl, ih levels (by omega) _ r hr⟩
        · exact .none
      next levels =>
        refine .skip fun fields => ?_
        split
        · refine .bind fun callee hcallee => .bind fun args hargs => .pure ?_
          refine depth_variant_record.2 ⟨Callee.writesWithin.depth_le hcallee, ?_⟩
          rw [toJsonAll_eq_map]
          refine depth_array_succ.2 (List.forall_mem_map.2 fun e he => ?_)
          obtain ⟨item, -, hitem⟩ := exists_mem_of_mapM hargs e he
          exact ih levels (by omega) item e hitem
        · exact .none
      next levels =>
        exact .map fun f hf => depth_record_succ.2 (FieldRef.writesWithin.depth_le hf)
      next levels =>
        refine .skip fun fields => ?_
        split
        · refine .skip fun description => .bind fun ty hty => .pure ?_
          exact depth_variant_record.2 ⟨Nat.zero_le _, Ty.writesWithin.depth_le hty⟩
        · exact .none
      next => exact .none
    next => exact .none

theorem Expr.writesWithin_args :
    WritesWithin (list? Expr.ofJson?) fun args => .array (Expr.toJsonAll .file args) := by
  intro levels j args h
  dsimp only
  rw [toJsonAll_eq_map]
  exact writesWithin.list.depth_le h

theorem Place.writesWithin : WritesWithin Place.ofJson? Place.toJson := by
  intro levels j
  rw [ofJson?.eq_def]
  split
  · split
    · exact .map fun x hx => depth_record_succ.2 (Local.writesWithin.depth_le hx)
    · exact .map fun f hf => depth_record_succ.2 (FieldRef.writesWithin.depth_le hf)
    · exact .none
  · exact .none

/-! ## Probes and operations -/

/-- A probe that captures nothing is a record without parts. -/
theorem Probe.depth_toJson_le {p : Probe}
    (h : ∀ file line x source, p ≠ .capture file line x source) :
    p.toJson.depth ≤ levels + 2 := by
  cases p with
  | capture file line x source => exact absurd rfl (h file line x source)
  | _ => exact depth_variant_record.2 (by simp [depth, numberJson, ofNat, ofInt])

theorem Probe.yields_ofContent? (levels : Nat) (kind : String) (content : Json) :
    Yields (fun p => p.toJson.depth ≤ levels + 2) (ofContent? levels kind content) := by
  unfold ofContent?
  split
  case h_4 =>
    refine .skip fun fields => ?_
    split
    · refine .skip fun file => .skip fun line => .bind fun x hx => .skip fun source => .pure ?_
      exact depth_variant_record.2
        ⟨Nat.zero_le _, Nat.zero_le _, Local.writesWithin.depth_le hx, Nat.zero_le _⟩
    · exact .none
  case h_1 =>
    refine .skip fun fields => ?_
    split
    · refine .skip fun file => .skip fun line => .pure ?_
      exact depth_toJson_le fun _ _ _ _ => Probe.noConfusion
    · exact .none
  case h_2 =>
    refine .skip fun fields => ?_
    split
    · refine .skip fun file => .skip fun line => .skip fun index => .pure ?_
      exact depth_toJson_le fun _ _ _ _ => Probe.noConfusion
    · exact .none
  case h_3 =>
    refine .skip fun fields => ?_
    split
    · refine .skip fun file => .skip fun line => .skip fun index => .skip fun left =>
        .skip fun op => .skip fun right => .pure ?_
      exact depth_toJson_le fun _ _ _ _ => Probe.noConfusion
    · exact .none
  case h_5 =>
    refine .skip fun fields => ?_
    split
    · refine .skip fun file => .skip fun line => .skip fun field => .pure ?_
      exact depth_toJson_le fun _ _ _ _ => Probe.noConfusion
    · exact .none
  case h_6 | h_7 =>
    refine .skip fun fields => ?_
    split
    · refine .skip fun test => .pure ?_
      exact depth_toJson_le fun _ _ _ _ => Probe.noConfusion
    · exact .none
  case h_8 => exact .none

theorem Probe.writesWithin : WritesWithin Probe.ofJson? Probe.toJson := by
  intro levels j
  rw [ofJson?.eq_def]
  split
  · exact yields_ofContent? _ _ _
  · exact .none

theorem Label.depth_toJson_le (l : Label) : l.toJson.depth ≤ levels := Nat.zero_le levels

theorem Operation.yields_ofRecord? (levels : Nat) (kind : String) (content : Json) :
    Yields (fun op => (op.toJson .file).depth ≤ levels + 2) (ofRecord? levels kind content) := by
  unfold ofRecord?
  split
  case h_1 =>
    refine .skip fun fields => ?_
    split
    · refine .bind fun target htarget => .bind fun value hvalue => .pure ?_
      exact depth_variant_record.2
        ⟨Place.writesWithin.depth_le htarget, Expr.writesWithin.depth_le hvalue⟩
    · exact .none
  case h_2 =>
    refine .skip fun fields => ?_
    split
    · refine .bind fun condition hcondition => .skip fun target => .pure ?_
      exact depth_variant_record.2
        ⟨Expr.writesWithin.depth_le hcondition, target.depth_toJson_le⟩
    · exact .none
  case h_3 =>
    refine .skip fun fields => ?_
    split
    · refine .skip fun target => .pure ?_
      exact depth_variant_record.2 target.depth_toJson_le
    · exact .none
  case h_4 =>
    refine .skip fun fields => ?_
    split
    · refine .bind fun callee hcallee => .bind fun args hargs => .pure ?_
      exact depth_variant_record.2
        ⟨Callee.writesWithin.depth_le hcallee, Expr.writesWithin_args.depth_le hargs⟩
    · exact .none
  case h_5 => exact .none

theorem Operation.writesWithin : WritesWithin Operation.ofJson? (Operation.toJson .file) := by
  intro levels j
  rw [ofJson?.eq_def]
  split
  · exact .pure (Nat.zero_le _)
  · rw [ofContent?.eq_def]
    split
    · refine .map fun value hvalue => ?_
      have hdepth := Expr.writesWithin.nullable.depth_le hvalue
      cases value <;> exact depth_record_succ.2 hdepth
    · exact .map fun p hp => depth_record_succ.2 (Probe.writesWithin.depth_le hp)
    · split
      · exact .pure (Nat.zero_le _)
      · exact .none
    · exact yields_ofRecord? _ _ _
    · exact .none
  · exact .none

/-! ## Classes -/

theorem Instr.writesWithin : WritesWithin Instr.ofJson? (Instr.toJson .file) := by
  refine .of_members (fun _ => rfl) fun levels j => ?_
  refine .skip fun fields => ?_
  split
  · refine .skip fun label => .skip fun line => .bind fun op hop => .pure ?_
    exact depth_record_succ.2
      ⟨label.depth_toJson_le, Nat.zero_le levels, Operation.writesWithin.depth_le hop⟩
  · exact .none

theorem pos_of_list? {read : Nat → Json → Option α} {l : List α}
    (h : list? read levels j = some l) : 0 < levels := by
  cases levels with
  | zero => cases h
  | succ levels => exact Nat.succ_pos levels

theorem Body.writesWithin : WritesWithin Body.ofJson? (Body.toJson .file) := by
  refine .of_members (fun _ => rfl) fun levels j => ?_
  refine .skip fun fields => ?_
  split
  · refine .bind fun locals hlocals => .bind fun instrs hinstrs => .pure ?_
    exact depth_record_succ.2 ⟨Local.writesWithin.listOr hlocals (pos_of_list? hinstrs),
      Instr.writesWithin.list.depth_le hinstrs⟩
  · exact .none

theorem Body.pos_of_ofJson? {b : Body} (h : Body.ofJson? levels j = some b) : 0 < levels := by
  cases levels with
  | zero => cases h
  | succ levels => exact Nat.succ_pos levels

theorem Method.writesWithin : WritesWithin Method.ofJson? (Method.toJson .file) := by
  refine .of_members (fun _ => rfl) fun levels j => ?_
  refine .skip fun fields => ?_
  split
  · refine .skip fun name => .bind fun params hparams => .bind fun returnType hty =>
      .bind fun body hbody => .pure ?_
    exact depth_record_succ.2 ⟨Nat.zero_le levels,
      Local.writesWithin.listOr hparams (Body.pos_of_ofJson? hbody), Ty.writesWithin.depth_le hty,
      Body.writesWithin.depth_le hbody⟩
  · exact .none

theorem FieldDecl.writesWithin : WritesWithin FieldDecl.ofJson? (FieldDecl.toJson .file) := by
  refine .of_members (fun _ => rfl) fun levels j => ?_
  refine .skip fun fields => ?_
  split
  next name ty initial =>
    refine .skip fun name => .bind fun ty hty => .bind fun value hvalue => .pure ?_
    refine depth_record_succ.2 ⟨Nat.zero_le levels, Ty.writesWithin.depth_le hty, ?_⟩
    cases initial with
    | none =>
      cases hvalue
      exact Nat.zero_le levels
    | some j => exact Value.writesWithin.nullable.depth_le hvalue
  next => exact .none

/-- A class is written with no more levels than it was read with; two are taken by the lists of
fields and methods, which may be missing where it was read. -/
theorem Class.yields_ofJson? (levels : Nat) (j : Json) :
    Yields (fun c => (c.toJson .file).depth ≤ levels + 2) (Class.ofJson? (levels + 2) j) := by
  refine .skip fun fields => ?_
  split
  · refine .skip fun name => .skip fun sourceFile => .bind fun fields hfields =>
      .bind fun methods hmethods => .pure ?_
    refine depth_record_succ.2 ⟨Nat.zero_le _, ?_,
      FieldDecl.writesWithin.listOr hfields (Nat.succ_pos levels),
      Method.writesWithin.listOr hmethods (Nat.succ_pos levels)⟩
    cases sourceFile <;> exact Nat.zero_le _
  · exact .none

/-- The class of a class file is written within the levels that readers take. -/
theorem Class.depth_of_ofFileText? {text : String} {c : Class}
    (h : Class.ofFileText? text = some c) : (c.toJson .file).depth ≤ maxNesting := by
  obtain ⟨j, -, hread⟩ := Option.bind_eq_some_iff.1 h
  exact Class.yields_ofJson? 125 j c hread

end TraceWeave
