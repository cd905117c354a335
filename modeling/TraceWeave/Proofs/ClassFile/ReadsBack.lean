import TraceWeave.Json.Fields
import TraceWeave.Proofs.Json.Lexing

/-!
# Reading typed documents back

`ReadsBack read j x` says that the document `j` stands for `x`: its numerals are well-formed, so its
text determines it, and a reader gets `x` from it when it may open as many levels of nesting as `j`
has.  There is one lemma for each way in which documents are put together: variants, records and
arrays.
-/

namespace TraceWeave.Json

/-! ## Numbers and characters -/

theorem intWithin?_ofInt {n least greatest : Int} (h : least ≤ n ∧ n ≤ greatest) :
    (ofInt n).intWithin? least greatest = some n := by
  have hint : (ofInt n).int? = some n := Numeral.toInt?_ofInt n
  rw [intWithin?, hint, Option.bind_some, if_pos (by simpa using h)]

theorem int32?_ofInt (n : Int32) : (ofInt n.toInt).int32? = some n := by
  rw [int32?, intWithin?_ofInt ⟨n.minValue_le_toInt, n.toInt_le⟩]
  exact congrArg some (Int32.ofInt_toInt n)

theorem int64?_ofInt (n : Int64) : (ofInt n.toInt).int64? = some n := by
  rw [int64?, intWithin?_ofInt ⟨n.minValue_le_toInt, n.toInt_le⟩]
  exact congrArg some (Int64.ofInt_toInt n)

theorem uint32?_ofNat (n : UInt32) : (ofNat n.toNat).uint32? = some n := by
  have hn := n.toNat_lt
  rw [uint32?, ofNat, intWithin?_ofInt ⟨by omega, by simp [UInt32.size]; omega⟩]
  exact congrArg some (UInt32.ofNat_toNat)

theorem char?_string (c : Char) : (Json.string c.toString).char? = some c := by
  rw [char?, text?, Option.map_some, Char.toString_eq_singleton, String.toList_singleton]

/-! ## Documents -/

variable {α : Type}

/-- Reading the document comes to `o` with as many levels as it has, and its text determines it. -/
structure ReadsAs (read : Nat → Json → Option α) (j : Json) (o : Option α) : Prop where
  /-- The numerals of the document are well-formed. -/
  wellFormed : j.WellFormed
  /-- The reader gets `o`. -/
  read_eq : ∀ levels, j.depth ≤ levels → read levels j = o

/-- The document stands for `x`. -/
abbrev ReadsBack (read : Nat → Json → Option α) (j : Json) (x : α) : Prop :=
  ReadsAs read j (some x)

theorem wellFormed_ofInt (n : Int) : (ofInt n).WellFormed := .number (Numeral.wellFormed_ofInt n)

theorem wellFormed_record {members : List (String × Json)} (h : members.Forall (·.2.WellFormed)) :
    (record members).WellFormed := by
  refine .object fun m hm => ?_
  obtain ⟨m, hmem, rfl⟩ := List.mem_map.1 hm
  exact List.forall_iff_forall_mem.1 h m hmem

theorem depth_record_le {members : List (String × Json)} {n : Nat} :
    (record members).depth ≤ n ↔ ∃ k, n = k + 1 ∧ members.Forall (·.2.depth ≤ k) := by
  simp only [record, depth_object_le, List.forall_mem_map, List.forall_iff_forall_mem]

namespace ReadsAs

variable {β γ : Type} {read : Nat → Json → Option α} {o : Option α} {f : γ → Option α}
  {write : γ → Json}

/-- A document without numbers and without parts. -/
theorem string {s : String} (h : ∀ levels, read levels (.string s) = o) :
    ReadsAs read (.string s) o where
  wellFormed := .string s
  read_eq levels _ := h levels

theorem record {members : List (String × Json)} (hmembers : members.Forall (·.2.WellFormed))
    (hread : ∀ levels, members.Forall (·.2.depth ≤ levels) →
      read (levels + 1) (record members) = o) :
    ReadsAs read (record members) o where
  wellFormed := wellFormed_record hmembers
  read_eq levels hlevels := by
    obtain ⟨k, rfl, hk⟩ := depth_record_le.1 hlevels
    exact hread k hk

/-- A variant is a record of one member. -/
theorem variant {name : String} {content : Json} (hcontent : content.WellFormed)
    (hread : ∀ levels, content.depth ≤ levels →
      read (levels + 1) (variant name content) = o) :
    ReadsAs read (variant name content) o :=
  .record hcontent hread

/-- A variant whose content stands for the only part of what is read. -/
theorem wrap {outer : Nat → Json → Option β} {g : α → β} {name : String} {content : Json}
    (h : ReadsAs read content o)
    (houter : ∀ levels, outer (levels + 1) (Json.variant name content) =
      (read levels content).map g) :
    ReadsAs outer (Json.variant name content) (o.map g) :=
  .variant h.wellFormed fun levels hlevels => by rw [houter, h.read_eq levels hlevels]

theorem mapM {l : List γ} (h : ∀ y ∈ l, ReadsAs read (write y) (f y)) {levels : Nat}
    (hdepth : ∀ y ∈ l, (write y).depth ≤ levels) :
    (l.map write).mapM (read levels) = l.mapM f := by
  induction l with
  | nil => rfl
  | cons y l ih =>
    obtain ⟨hy, hl⟩ := List.forall_mem_cons.1 h
    obtain ⟨hdy, hdl⟩ := List.forall_mem_cons.1 hdepth
    rw [List.map_cons, List.mapM_cons, List.mapM_cons, hy.read_eq levels hdy, ih hl hdl]

theorem array {l : List γ} (h : ∀ y ∈ l, ReadsAs read (write y) (f y)) :
    ReadsAs (list? read) (.array (l.map write)) (l.mapM f) where
  wellFormed := .array (List.forall_mem_map.2 fun y hy => (h y hy).wellFormed)
  read_eq levels hlevels := by
    obtain ⟨k, rfl, hk⟩ := depth_array_le.1 hlevels
    exact mapM h (List.forall_mem_map.1 hk)

/-- A value that may be missing is null if it is, and so nothing else may be written as null. -/
theorem nullable {y? : Option γ}
    (h : ∀ y ∈ y?, ReadsAs read (write y) (f y) ∧ write y ≠ .null) :
    ReadsAs (fun levels => nullable? (read levels)) ((y?.map write).getD .null) (y?.mapM f) := by
  cases y? with
  | none => exact ⟨.null, fun levels _ => rfl⟩
  | some y =>
    obtain ⟨hy, hne⟩ := h y rfl
    refine ⟨hy.wellFormed, fun levels hlevels => ?_⟩
    rw [Option.map_some, Option.getD_some] at hlevels ⊢
    rw [nullable?, hy.read_eq levels hlevels]
    · rfl
    · exact hne

end ReadsAs

namespace ReadsBack

variable {read : Nat → Json → Option α} {write : α → Json}

theorem array {l : List α} (h : ∀ y ∈ l, ReadsBack read (write y) y) :
    ReadsBack (list? read) (.array (l.map write)) l := by
  have hmapM : l.mapM some = some l :=
    (List.mapM_pure (f := id)).trans (congrArg some (List.map_id l))
  have harray := ReadsAs.array h
  rwa [hmapM] at harray

end ReadsBack

end TraceWeave.Json
