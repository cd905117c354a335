import TraceWeave.Proofs.Body.Consistency
import TraceWeave.Proofs.Stateful
import TraceWeave.Proofs.Weave.Layout

/-!
# What an edit adds to a body

An edit of a body that only inserts before instructions is described by what every slot of the
body's layout gains (`Layout.Gains`).  `Adds f b b'` says this of the bodies before and after, under
the one condition that the labels afterwards are distinct, which the check after weaving asks for:
no edit removes a label, so they were distinct all the time.

`Adds` composes, and `insertAll_adds` reads off what a list of insertions adds.
-/

namespace TraceWeave

/-- The layout, written out, is the body, and nothing that was woven in jumps. -/
structure Layout.Lays (y : Layout) (b : Body) : Prop where
  /-- Written out, the layout is the body. -/
  instrs_eq : b.instrs = y.instrs
  /-- Nothing that was woven in jumps. -/
  straight : y.Straight

theorem Layout.Lays.labels_eq {y : Layout} {b : Body} (h : y.Lays b) : b.labels = y.labels :=
  labels_eq_of_instrs h.instrs_eq

theorem Layout.Lays.labels_nodup {y : Layout} {b : Body} (h : y.Lays b) (hnodup : b.labels.Nodup) :
    y.labels.Nodup := h.labels_eq ▸ hnodup

/-- A body before weaving lies in slots of its own. -/
theorem Layout.ofInstrs_lays (b : Body) : (ofInstrs b.instrs).Lays b := by
  have hdest : (ofInstrs b.instrs).destination = id := by
    funext t
    rcases (ofInstrs b.instrs).destination_eq_or_mem t with h | ⟨e, he, -⟩
    · exact h
    · simp [woven, ofInstrs] at he
  refine ⟨?_, by simp [Straight, woven, ofInstrs]⟩
  rw [instrs, hdest]
  simp [ofInstrs, Slot.emit, Instr.retarget_id, List.flatMap_map, List.flatMap_singleton']

theorem Layout.origins_ofInstrs (b : Body) : (ofInstrs b.instrs).origins = b.labels := by
  simp [origins, ofInstrs, Body.labels, Function.comp_def]

/-- Two relations on the members of lists, one after the other. -/
theorem forall₂_comp {α β γ : Type} {R : α → β → Prop} {S : β → γ → Prop} {T : α → γ → Prop}
    (h : ∀ a b c, R a b → S b c → T a c) {l : List α} {m : List β} {n : List γ}
    (hR : List.Forall₂ R l m) (hS : List.Forall₂ S m n) : List.Forall₂ T l n := by
  induction hR generalizing n with
  | nil => cases hS; exact .nil
  | cons hab _ ih =>
    cases hS with
    | cons hbc hrest => exact .cons (h _ _ _ hab hbc) (ih hrest)

/-- Searches in lists whose members are related find related members. -/
theorem find?_forall₂ {α β : Type} {R : α → β → Prop} {f : α → Bool} {g : β → Bool}
    (hfg : ∀ a b, R a b → f a = g b) {l : List α} {m : List β} (h : List.Forall₂ R l m) :
    Option.Rel R (l.find? f) (m.find? g) := by
  induction h with
  | nil => exact .none
  | @cons a b _ _ hab _ ih =>
    rw [List.find?_cons, List.find?_cons, hfg a b hab]
    cases g b with
    | true => exact .some hab
    | false => exact ih

theorem exists_of_mem_forall₂ {α β : Type} {R : α → β → Prop} {l : List α} {m : List β}
    (h : List.Forall₂ R l m) {b : β} (hb : b ∈ m) : ∃ a ∈ l, R a b := by
  induction h with
  | nil => cases hb
  | cons hab _ ih =>
    rcases List.mem_cons.1 hb with rfl | hb
    · exact ⟨_, by simp, hab⟩
    · obtain ⟨a, ha, hab⟩ := ih hb
      exact ⟨a, by simp [ha], hab⟩

/-- An instruction of slots, written out, was woven into one of them, or it was there before. -/
theorem exists_of_mem_flatMap_emit {R : Instr → Slot → Prop} {instrs : List Instr}
    {slots : List Slot} {f : Label → Label} {e : Instr} (h : List.Forall₂ R instrs slots)
    (he : e ∈ slots.flatMap (Slot.emit f)) :
    ∃ i ∈ instrs, ∃ s ∈ slots, R i s ∧
      ((∃ d ∈ s.woven, e = wovenInstr d) ∨ e = s.instr.retarget f) := by
  obtain ⟨s, hs, he⟩ := List.mem_flatMap.1 he
  obtain ⟨i, hi, hR⟩ := exists_of_mem_forall₂ h hs
  exact ⟨i, hi, s, hs, hR, by simpa [Slot.emit, eq_comm] using he⟩

theorem exists_getElem?_of_forall₂ {α β : Type} {R : α → β → Prop} {l : List α} {m : List β}
    (h : List.Forall₂ R l m) {k : Nat} {a : α} (ha : l[k]? = some a) :
    ∃ b, m[k]? = some b ∧ R a b := by
  obtain ⟨hlt, rfl⟩ := List.getElem?_eq_some_iff.1 ha
  have hlt' : k < m.length := h.length_eq ▸ hlt
  exact ⟨m[k], List.getElem?_eq_getElem hlt', h.get hlt hlt'⟩

/-! ## Gains of slots and layouts -/

/-- The second slot is the first with the operations that `f` gives to its label woven in after
those that it had. -/
def Slot.Gains (f : Label → List Operation) (s s' : Slot) : Prop :=
  s'.instr = s.instr ∧ s'.ops = s.ops ++ f s.instr.label

/-- The second layout is the first with the operations that `f` gives to each label woven in. -/
structure Layout.Gains (f : Label → List Operation) (y y' : Layout) : Prop where
  /-- The entry stays as it was. -/
  opening_eq : y'.opening = y.opening
  /-- The end stays as it was. -/
  closing_eq : y'.closing = y.closing
  /-- Every slot gains what its label is given. -/
  slots : List.Forall₂ (Slot.Gains f) y.slots y'.slots

theorem Layout.origins_eq_of_slots {y y' : Layout}
    (h : List.Forall₂ (fun s s' => s'.instr.label = s.instr.label) y.slots y'.slots) :
    y'.origins = y.origins := by
  have hlabels : List.Forall₂ (fun l l' => l = l') y'.origins y.origins := by
    rw [origins, origins, List.forall₂_map_left_iff, List.forall₂_map_right_iff]
    exact h.flip
  rwa [List.forall₂_eq_eq_eq] at hlabels

namespace Layout.Gains

variable {f g : Label → List Operation} {y y₁ y₂ : Layout}

theorem origins_eq (h : y.Gains f y₁) : y₁.origins = y.origins :=
  origins_eq_of_slots (h.slots.imp fun _ _ hs => by rw [hs.1])

theorem refl (hf : ∀ l ∈ y.origins, f l = []) : y.Gains f y := by
  refine ⟨rfl, rfl, List.forall₂_same.2 fun s hs => ⟨rfl, ?_⟩⟩
  rw [hf _ (Layout.mem_origins_of_mem hs), List.append_nil]

theorem trans (h₁ : y.Gains f y₁) (h₂ : y₁.Gains g y₂) : y.Gains (fun l => f l ++ g l) y₂ := by
  refine ⟨h₂.opening_eq.trans h₁.opening_eq, h₂.closing_eq.trans h₁.closing_eq, ?_⟩
  refine forall₂_comp (fun s s₁ s₂ hs hs₁ => ⟨hs₁.1.trans hs.1, ?_⟩) h₁.slots h₂.slots
  rw [hs₁.2, hs.2, hs.1, List.append_assoc]

end Layout.Gains

/-- The operations given to one label only. -/
def onlyAt (anchor : Label) (ops : List Operation) (l : Label) : List Operation :=
  if l = anchor then ops else []

theorem onlyAt_append (anchor : Label) (ops ops' : List Operation) (l : Label) :
    onlyAt anchor ops l ++ onlyAt anchor ops' l = onlyAt anchor (ops ++ ops') l := by
  by_cases h : l = anchor <;> simp [onlyAt, h]

theorem eq_of_onlyAt_ne_nil {anchor : Label} {ops : List Operation} {l : Label}
    (h : onlyAt anchor ops l ≠ []) : l = anchor := by
  by_contra hne
  exact h (if_neg hne)

theorem Layout.weaveAt_gains (y : Layout) (anchor label : Label) (op : Operation) :
    y.Gains (onlyAt anchor [op]) (y.weaveAt anchor (label, op)) := by
  refine ⟨rfl, rfl, ?_⟩
  rw [weaveAt, List.forall₂_map_right_iff]
  refine List.forall₂_same.2 fun s _ => ?_
  by_cases h : s.instr.label = anchor <;> simp [Slot.Gains, onlyAt, h]

/-! ## Edits -/

/-- Every operation of a body has a property. -/
def Body.All (P : Operation → Prop) (b : Body) : Prop := ∀ i ∈ b.instrs, P i.op

/-- The second body is the first with the operations that `f` gives to each label inserted before
it, one after another. -/
structure Adds (f : Label → List Operation) (b b' : Body) : Prop where
  /-- No label is lost. -/
  labels : b.labels.Sublist b'.labels
  /-- What holds of all operations, wherever they jump, holds afterwards if it holds of those that
  are added. -/
  all : ∀ {P : Operation → Prop}, (∀ {op} f, P op → P (op.retarget f)) →
    (∀ l, ∀ op ∈ f l, P op) → b.All P → b'.All P
  /-- If labels stay distinct, every layout of the first body gains the operations. -/
  layout : b'.labels.Nodup → ∀ y : Layout, y.Lays b → (∀ l, f l ≠ [] → l ∈ y.origins) →
    ∃ y' : Layout, y'.Lays b' ∧ y.Gains f y'

namespace Adds

variable {f g : Label → List Operation} {b b₁ b₂ : Body}

theorem refl (h : b₁.instrs = b.instrs) : Adds (fun _ => []) b b₁ where
  labels := by rw [Body.labels, Body.labels, h]
  all _ _ hb := by rwa [Body.All, h]
  layout _ y hy _ := ⟨y, ⟨h.trans hy.instrs_eq, hy.straight⟩, .refl fun _ _ => rfl⟩

theorem trans (h₁ : Adds f b b₁) (h₂ : Adds g b₁ b₂) : Adds (fun l => f l ++ g l) b b₂ where
  labels := h₁.labels.trans h₂.labels
  all hretarget hf hb :=
    h₂.all hretarget (fun l op hop => hf l op (List.mem_append_right _ hop))
      (h₁.all hretarget (fun l op hop => hf l op (List.mem_append_left _ hop)) hb)
  layout hnodup y hy hanchors := by
    obtain ⟨y₁, hy₁, hgains₁⟩ := h₁.layout (hnodup.sublist h₂.labels) y hy fun l hl =>
      hanchors l (by simp [hl])
    obtain ⟨y₂, hy₂, hgains₂⟩ := h₂.layout hnodup y₁ hy₁ fun l hl =>
      hgains₁.origins_eq ▸ hanchors l (by simp [hl])
    exact ⟨y₂, hy₂, hgains₁.trans hgains₂⟩

theorem congr (h : Adds f b b₁) (hfg : ∀ l, f l = g l) : Adds g b b₁ :=
  (funext hfg : f = g) ▸ h

end Adds

/-- An insertion brings in one instruction and keeps the others in their order, up to where they
jump. -/
theorem insertBefore?_map {α : Type} {g : Instr → α} {b b' : Body} {anchor : Label}
    {op : Operation} (hg : ∀ i, g (i.redirect anchor b.nextLabel) = g i)
    (h : b.insertBefore? anchor op = some b') :
    (b.instrs.map g).Sublist (b'.instrs.map g) ∧
      (b'.instrs.map g).Perm (g { label := b.nextLabel, op } :: b.instrs.map g) := by
  unfold Body.insertBefore? at h
  split at h
  · cases h
    have hold : (b.instrs.map (Instr.redirect anchor b.nextLabel)).map g = b.instrs.map g := by
      rw [List.map_map]
      exact List.map_congr_left fun i _ => hg i
    have hsplit := List.takeWhile_append_dropWhile
      (p := fun i : Instr => decide (i.label ≠ anchor))
      (l := b.instrs.map (Instr.redirect anchor b.nextLabel))
    rw [← hold, ← hsplit, List.map_append]
    simp only [List.map_append, List.map_cons, hsplit]
    exact ⟨(List.sublist_cons_self _ _).append_left _, List.perm_middle⟩
  · cases h

/-- An insertion brings in the next label and keeps the others in their order. -/
theorem insertBefore?_labels {b b' : Body} {anchor : Label} {op : Operation}
    (h : b.insertBefore? anchor op = some b') :
    b.labels.Sublist b'.labels ∧ b'.labels.Perm (b.nextLabel :: b.labels) :=
  insertBefore?_map (fun _ => rfl) h

theorem insertBefore?_labels_sublist {b b' : Body} {anchor : Label} {op : Operation}
    (h : b.insertBefore? anchor op = some b') : b.labels.Sublist b'.labels :=
  (insertBefore?_labels h).1

theorem insertBefore?_locals {b b' : Body} {anchor : Label} {op : Operation}
    (h : b.insertBefore? anchor op = some b') : b'.locals = b.locals := by
  unfold Body.insertBefore? at h
  split at h <;> cases h
  rfl

theorem insertBefore_eq_ok {b b' : Body} {anchor : Label} {op : Operation} {u : Unit}
    (h : insertBefore anchor op b = .ok u b') : b.insertBefore? anchor op = some b' := by
  unfold insertBefore at h
  split at h <;> cases h
  assumption

theorem insertBefore_locals {b b' : Body} {anchor : Label} {op : Operation} {u : Unit}
    (h : insertBefore anchor op b = .ok u b') : b'.locals = b.locals :=
  insertBefore?_locals (insertBefore_eq_ok h)

theorem insertBefore?_all {b b' : Body} {anchor : Label} {op : Operation} {P : Operation → Prop}
    (hretarget : ∀ {op} f, P op → P (op.retarget f)) (hop : P op)
    (h : b.insertBefore? anchor op = some b') (hb : b.All P) : b'.All P := by
  have hold : ∀ i ∈ b.instrs.map (Instr.redirect anchor b.nextLabel), P i.op := by
    intro i hi
    obtain ⟨j, hj, rfl⟩ := List.mem_map.1 hi
    rw [Instr.redirect_eq_retarget]
    exact hretarget _ (hb j hj)
  unfold Body.insertBefore? at h
  split at h
  · cases h
    intro i hi
    rcases List.mem_append.1 hi with hi | hi
    · exact hold i ((List.takeWhile_sublist _).subset hi)
    · rcases List.mem_cons.1 hi with rfl | hi
      · exact hop
      · exact hold i ((List.dropWhile_sublist _).subset hi)
  · cases h

theorem insertBefore_adds {b b' : Body} {anchor : Label} {op : Operation} {u : Unit}
    (hop : op.target? = none) (h : insertBefore anchor op b = .ok u b') :
    Adds (onlyAt anchor [op]) b b' where
  labels := insertBefore?_labels_sublist (insertBefore_eq_ok h)
  all hretarget hf hb :=
    insertBefore?_all hretarget (hf anchor op (by simp [onlyAt])) (insertBefore_eq_ok h) hb
  layout hnodup y hy hanchors := by
    have h := insertBefore_eq_ok h
    have hanchor : anchor ∈ y.origins := hanchors anchor (by simp [onlyAt])
    have hb := hnodup.sublist (insertBefore?_labels_sublist h)
    rw [Layout.insertBefore?_eq op hy.instrs_eq hy.straight hb hanchor] at h
    cases h
    refine ⟨y.weaveAt anchor (b.nextLabel, op), ⟨rfl, ?_⟩, y.weaveAt_gains anchor _ op⟩
    intro e he
    have hold := hy.straight e
    simp only [Layout.woven, Layout.weaveAt, List.mem_append, List.mem_flatMap,
      List.mem_map] at he hold
    rcases he with (he | ⟨r, ⟨s, hs, rfl⟩, he⟩) | he
    · exact hold (.inl (.inl he))
    · split at he
      · rcases List.mem_append.1 he with he | he
        · exact hold (.inl (.inr ⟨s, hs, he⟩))
        · rw [List.mem_singleton.1 he]
          exact hop
      · exact hold (.inl (.inr ⟨s, hs, he⟩))
    · exact hold (.inr he)

theorem Layout.Lays.push {y : Layout} {b : Body} (hy : y.Lays b) {op : Operation}
    (hop : op.target? = none) :
    Layout.Lays { y with closing := y.closing ++ [(b.nextLabel, op)] } (b.push 0 op) := by
  refine ⟨by rw [Layout.push_eq op hy.instrs_eq], fun e he => ?_⟩
  have hold := hy.straight e
  simp only [Layout.woven, List.mem_append, List.mem_singleton] at he hold
  rcases he with (he | he) | he | rfl
  · exact hold (.inl (.inl he))
  · exact hold (.inl (.inr he))
  · exact hold (.inr he)
  · exact hop

theorem Layout.Lays.insertEntry {y : Layout} {b : Body} (hy : y.Lays b) {op : Operation}
    (hop : op.target? = none) :
    Layout.Lays { y with opening := (b.nextLabel, op) :: y.opening } (b.insertEntry op) := by
  refine ⟨by rw [Layout.insertEntry_eq op hy.instrs_eq], fun e he => ?_⟩
  have hold := hy.straight e
  simp only [Layout.woven, List.mem_append, List.mem_cons] at he hold
  rcases he with ((rfl | he) | he) | he
  · exact hop
  · exact hold (.inl (.inl he))
  · exact hold (.inl (.inr he))
  · exact hold (.inr he)

/-- Inserts operations before the instructions with some labels, in order. -/
def insertAll : List (Label × Operation) → EditM Unit
  | [] => return
  | (anchor, op) :: rest => do
    insertBefore anchor op
    insertAll rest

/-- The operations that a list of insertions gives to a label. -/
def opsAt (l : List (Label × Operation)) (label : Label) : List Operation :=
  (l.filter fun e => e.1 = label).map (·.2)

theorem insertAll_adds {l : List (Label × Operation)} (hl : ∀ e ∈ l, e.2.target? = none)
    {b b' : Body} {u : Unit} (h : insertAll l b = .ok u b') :
    b'.locals = b.locals ∧ Adds (opsAt l) b b' := by
  induction l generalizing b with
  | nil =>
    cases h
    exact ⟨rfl, .refl rfl⟩
  | cons e rest ih =>
    obtain ⟨anchor, op⟩ := e
    obtain ⟨v, b₁, h₁, hrest⟩ := bind_eq_ok.1 h
    obtain ⟨hlocals, hadds⟩ := ih (fun e he => hl e (by simp [he])) hrest
    refine ⟨hlocals.trans (insertBefore_locals h₁), ?_⟩
    refine ((insertBefore_adds (hl (anchor, op) (by simp)) h₁).trans hadds).congr fun label => ?_
    by_cases hlabel : label = anchor
    · simp [onlyAt, opsAt, hlabel]
    · simp [onlyAt, opsAt, hlabel, Ne.symm hlabel]

/-! ## Instructions and jumps of woven bodies -/

/-- The slot holds an instruction with the same label, the same line and the same jump. -/
structure Instr.Carried (i : Instr) (s : Slot) : Prop where
  label : s.instr.label = i.label
  line : s.instr.line = i.line
  target? : s.instr.op.target? = i.op.target?

theorem Instr.Carried.of_eq {i : Instr} {s : Slot} (h : s.instr = i) : i.Carried s :=
  ⟨by rw [h], by rw [h], by rw [h]⟩

namespace Layout

theorem origins_eq_labels {b : Body} {y : Layout}
    (hslots : List.Forall₂ Instr.Carried b.instrs y.slots) : y.origins = b.labels := by
  rw [← origins_ofInstrs]
  refine origins_eq_of_slots ?_
  rw [ofInstrs, List.forall₂_map_left_iff]
  exact hslots.imp fun i s hs => hs.label

/-- What is read off the instructions of a woven body one by one, and not off woven ones, can be
read off the instructions that were there before. -/
theorem Lays.filterMap_eq {α : Type} {R : Instr → Slot → Prop} {f g : Instr → Option α}
    {b b' : Body} {y : Layout} (hy : y.Lays b') (hslots : List.Forall₂ R b.instrs y.slots)
    (hwoven : ∀ e ∈ y.woven, f (wovenInstr e) = none)
    (hfg : ∀ i s, R i s → f (s.instr.retarget y.destination) = g i) :
    b'.instrs.filterMap f = b.instrs.filterMap g := by
  have hnone : ∀ l : List (Label × Operation), (∀ e ∈ l, e ∈ y.woven) →
      (l.map wovenInstr).filterMap f = [] := by
    intro l hl
    rw [List.filterMap_eq_nil_iff]
    intro i hi
    obtain ⟨e, he, rfl⟩ := List.mem_map.1 hi
    exact hwoven e (hl e he)
  have hmain : ∀ (instrs : List Instr) (slots : List Slot), (∀ s ∈ slots, s ∈ y.slots) →
      List.Forall₂ R instrs slots →
      (slots.flatMap (Slot.emit y.destination)).filterMap f = instrs.filterMap g := by
    intro instrs slots hmem h
    induction h with
    | nil => rfl
    | @cons i s instrs slots hs _ ih =>
      have hs' := hnone s.woven fun e he => mem_woven_of_mem_slot (hmem s (by simp)) he
      rw [List.flatMap_cons, List.filterMap_append, ih fun r hr => hmem r (by simp [hr]),
        Slot.emit, List.filterMap_append, hs', List.nil_append, List.filterMap_cons, hfg i s hs,
        List.filterMap_cons]
      cases g i <;> rfl
  rw [hy.instrs_eq, instrs, List.filterMap_append, List.filterMap_append,
    hnone _ (by simp +contextual [woven]), hnone _ (by simp +contextual [woven]),
    hmain _ _ (fun _ hs => hs) hslots, List.nil_append, List.append_nil]

/-- What is read off a woven body, with nothing at its ends, is read off slot by slot. -/
theorem flatMap_flatMap_emit {α : Type} {R : Instr → Slot → Prop} {instrs : List Instr}
    {slots : List Slot} (hslots : List.Forall₂ R instrs slots) (destination : Label → Label)
    {f g : Instr → List α}
    (hg : ∀ i s, s ∈ slots → R i s → (s.emit destination).flatMap f = g i) :
    (slots.flatMap (Slot.emit destination)).flatMap f = instrs.flatMap g := by
  induction hslots with
  | nil => rfl
  | cons hs _ ih =>
    rw [List.flatMap_cons, List.flatMap_append, hg _ _ (by simp) hs, List.flatMap_cons,
      ih fun i s hmem => hg i s (by simp [hmem])]

/-- The jumps of a woven body are those that it had before, each sent to its slot. -/
theorem targets_eq_map {b b' : Body} {y : Layout} (hy : y.Lays b')
    (hslots : List.Forall₂ Instr.Carried b.instrs y.slots) :
    b'.targets = b.targets.map y.destination := by
  rw [Body.targets, Body.targets, List.map_filterMap]
  refine hy.filterMap_eq hslots hy.straight fun i s hs => ?_
  rw [Instr.retarget, Operation.retarget_target?, hs.target?]

end Layout

end TraceWeave
