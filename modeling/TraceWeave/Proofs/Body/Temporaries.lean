import TraceWeave.Body.Basic
import TraceWeave.Proofs.Text.Numerals
import Mathlib.Data.List.Nodup
import Mathlib.Data.List.Perm.Subperm
import Mathlib.Data.Nat.Count

/-!
# Fresh temporaries

A fresh temporary is named like one, and no declared variable has its name
(`Body.freshLocal_not_mem`).  So while temporaries are added, a name keeps its meaning if it begins
otherwise, is declared already, or is not declared in the end either (`Settled`).  Temporaries that
are declared one after another have distinct names, and they take the numbers that are left for them
in order (`FreshAfter.mem_names_iff`).
-/

namespace TraceWeave

namespace Body

theorem temporaryName_injective {m n : Nat} (h : temporaryName m = temporaryName n) : m = n := by
  have hdigits : (toString m).toList = (toString n).toList := by
    simpa [temporaryName, String.toList_append] using congrArg String.toList h
  exact Text.numeral_injective hdigits

theorem isTemporary_of_temporaryName (n : Nat) (ty : Ty) :
    isTemporary { name := temporaryName n, ty } = true := by
  simp [isTemporary, temporaryName, String.toList_append]

theorem isTemporary_freshLocal (b : Body) (ty : Ty) : isTemporary (b.freshLocal ty) = true :=
  isTemporary_of_temporaryName _ ty

/-- A number that a temporary can get where some variables are declared: it is no less than the
number of temporaries, and its name is not declared. -/
def Spare (locals : List Local) (n : Nat) : Prop :=
  (locals.filter isTemporary).length ≤ n ∧ temporaryName n ∉ locals.map (·.name)

instance (locals : List Local) : DecidablePred (Spare locals) :=
  fun _ => inferInstanceAs (Decidable (_ ∧ _))

/-- Among more numbers than there are declared variables, one names none of them. -/
theorem exists_offset (b : Body) : ∃ n, (List.range (b.locals.length + 1)).find? (fun n =>
    !(b.locals.map (·.name)).contains
      (temporaryName ((b.locals.filter isTemporary).length + n))) = some n := by
  set start := (b.locals.filter isTemporary).length
  rw [← Option.isSome_iff_exists, List.find?_isSome]
  by_contra hnone
  have hall : ∀ n ∈ List.range (b.locals.length + 1),
      temporaryName (start + n) ∈ b.locals.map (·.name) := by
    intro n hn
    by_contra hmem
    exact hnone ⟨n, hn, by simpa using hmem⟩
  have hnodup : ((List.range (b.locals.length + 1)).map fun n =>
      temporaryName (start + n)).Nodup := by
    refine List.Nodup.map (fun m n h => ?_) List.nodup_range
    exact Nat.add_left_cancel (temporaryName_injective h)
  have hlength := (List.subperm_of_subset hnodup fun x hx => by
    obtain ⟨n, hn, rfl⟩ := List.mem_map.1 hx
    exact hall n hn).length_le
  simp only [List.length_map, List.length_range] at hlength
  omega

/-- The next temporary gets the least spare number. -/
theorem nextTemporary_spec (b : Body) :
    Spare b.locals b.nextTemporary ∧ ∀ n, Spare b.locals n → b.nextTemporary ≤ n := by
  obtain ⟨offset, hoffset⟩ := b.exists_offset
  have hnext : b.nextTemporary = (b.locals.filter isTemporary).length + offset := by
    rw [nextTemporary]
    simp only [hoffset, Option.getD_some]
  obtain ⟨hfree, -, hleast⟩ := List.find?_range_eq_some.1 hoffset
  rw [hnext]
  refine ⟨⟨Nat.le_add_right _ _, by simpa using hfree⟩, fun n hn => ?_⟩
  obtain ⟨k, rfl⟩ := Nat.exists_eq_add_of_le hn.1
  by_contra hlt
  have hdeclared := hleast k (by omega)
  exact hn.2 (by simpa using hdeclared)

/-- No declared variable has the name of a fresh temporary. -/
theorem freshLocal_not_mem (b : Body) (ty : Ty) :
    (b.freshLocal ty).name ∉ b.locals.map (·.name) :=
  b.nextTemporary_spec.1.2

end Body

/-- A name that begins like those of temporaries is declared. -/
def Declares (locals : List Local) (n : String) : Prop :=
  Body.temporaryStem.toList <+: n.toList → n ∈ locals.map (·.name)

instance (locals : List Local) (n : String) : Decidable (Declares locals n) :=
  inferInstanceAs (Decidable (_ → _))

/-- A name that no temporary takes on the way from the variables that are declared to those that are
declared in the end. -/
def Settled (final locals : List Local) (n : String) : Prop :=
  n ∈ final.map (·.name) → Declares locals n

namespace Declares

variable {locals locals' : List Local} {n : String}

theorem mono (h : Declares locals n) (hlocals : locals <+: locals') : Declares locals' n := by
  intro hstem
  obtain ⟨x, hx, rfl⟩ := List.mem_map.1 (h hstem)
  exact List.mem_map_of_mem (hlocals.mem hx)

theorem of_mem {x : Local} (h : x ∈ locals) : Declares locals x.name :=
  fun _ => List.mem_map_of_mem h

theorem settled (h : Declares locals n) (final : List Local) : Settled final locals n := fun _ => h

end Declares

namespace Settled

variable {final locals locals' : List Local} {n : String}

theorem mono (h : Settled final locals n) (hlocals : locals <+: locals') :
    Settled final locals' n :=
  fun hn => (h hn).mono hlocals

theorem of_mem {x : Local} (h : x ∈ locals) : Settled final locals x.name := fun _ => .of_mem h

/-- A settled name is not that of a temporary that is declared next. -/
theorem ne_freshLocal (h : Settled final locals n) {b : Body} (hb : b.locals = locals) {ty : Ty}
    (hfinal : locals ++ [b.freshLocal ty] <+: final) : n ≠ (b.freshLocal ty).name := by
  rintro rfl
  have htemporary := b.isTemporary_freshLocal ty
  rw [Body.isTemporary, List.isPrefixOf_iff_prefix] at htemporary
  have hmem : (b.freshLocal ty).name ∈ final.map (·.name) :=
    List.mem_map_of_mem (hfinal.mem (by simp))
  exact b.freshLocal_not_mem ty (hb ▸ h hmem htemporary)

end Settled

/-! ## Temporaries that are declared one after another -/

/-- Variables that are declared after others, each of them the temporary that is fresh by then. -/
def FreshAfter : List Local → List Local → Prop
  | _, [] => True
  | locals, x :: rest =>
    x = ({ locals } : Body).freshLocal x.ty ∧ FreshAfter (locals ++ [x]) rest

namespace FreshAfter

open Body

variable {locals temps temps' : List Local}

theorem append (h : FreshAfter locals temps) (h' : FreshAfter (locals ++ temps) temps') :
    FreshAfter locals (temps ++ temps') := by
  induction temps generalizing locals with
  | nil => simpa using h'
  | cons x rest ih => exact ⟨h.1, ih h.2 (by simpa using h')⟩

/-- No temporary has the name of a variable that was declared before it. -/
theorem nodup (h : FreshAfter locals temps) :
    (temps.map (·.name)).Nodup ∧ ∀ n ∈ temps.map (·.name), n ∉ locals.map (·.name) := by
  induction temps generalizing locals with
  | nil => simp
  | cons x rest ih =>
    obtain ⟨hnodup, hnew⟩ := ih h.2
    have hx : x.name ∉ locals.map (·.name) := by
      rw [h.1]
      exact freshLocal_not_mem { locals } x.ty
    rw [List.map_cons, List.nodup_cons, List.forall_mem_cons]
    exact ⟨⟨fun hmem => hnew _ hmem (by simp), hnodup⟩, hx, fun n hn hmem =>
      hnew n hn (List.map_append ▸ List.mem_append_left _ hmem)⟩

/-- After a temporary is declared, the greater of the spare numbers are left. -/
theorem spare_concat {x : Local} (hx : x = ({ locals } : Body).freshLocal x.ty) {n : Nat} :
    Spare (locals ++ [x]) n ↔
      Spare locals n ∧ ({ locals } : Body).nextTemporary < n := by
  set next := ({ locals } : Body).nextTemporary with hnext
  obtain ⟨⟨hstart, -⟩, hleast⟩ := nextTemporary_spec { locals }
  have hname : x.name = temporaryName next := by rw [hx]; rfl
  have htemporary : isTemporary x = true := by rw [hx]; exact isTemporary_freshLocal _ _
  have hspare : Spare (locals ++ [x]) n ↔ (locals.filter isTemporary).length + 1 ≤ n ∧
      temporaryName n ∉ locals.map (·.name) ∧ n ≠ next := by
    have hne : temporaryName n = temporaryName next ↔ n = next :=
      ⟨temporaryName_injective, fun h => h ▸ rfl⟩
    simp [Spare, htemporary, hname, hne]
  rw [hspare]
  constructor
  · rintro ⟨hle, hfree, hne⟩
    have hn : Spare locals n := ⟨by omega, hfree⟩
    exact ⟨hn, Nat.lt_of_le_of_ne (hleast n hn) (Ne.symm hne)⟩
  · rintro ⟨hn, hlt⟩
    exact ⟨Nat.lt_of_le_of_lt hstart hlt, hn.2, hlt.ne'⟩

/-- The temporaries take the spare numbers one after another. -/
theorem mem_names_iff (h : FreshAfter locals temps) {name : String} :
    name ∈ temps.map (·.name) ↔ ∃ n, Spare locals n ∧ Nat.count (Spare locals) n < temps.length ∧
      temporaryName n = name := by
  induction temps generalizing locals with
  | nil => simp
  | cons x rest ih =>
    obtain ⟨hx, hrest⟩ := h
    set next := ({ locals } : Body).nextTemporary with hnext
    obtain ⟨hspare, hleast⟩ := nextTemporary_spec { locals }
    have hname : x.name = temporaryName next := by rw [hx]; rfl
    have hzero : Nat.count (Spare locals) next = 0 :=
      Nat.count_of_forall_not fun m hm hspare => absurd (hleast m hspare) (Nat.not_le.2 hm)
    -- The least spare number goes to the first temporary, and counts for the others no more.
    have hcount : ∀ n, next < n →
        Nat.count (Spare locals) n = Nat.count (Spare (locals ++ [x])) n + 1 := by
      intro n hn
      induction n, hn using Nat.le_induction with
      | base =>
        have hnone : Nat.count (Spare (locals ++ [x])) (next + 1) = 0 :=
          Nat.count_of_forall_not fun m hm hspare => by
            have := ((spare_concat hx).1 hspare).2
            omega
        rw [Nat.succ_eq_add_one, hnone, Nat.count_succ, hzero, if_pos hspare]
      | succ n hn ihn =>
        have hiff : Spare (locals ++ [x]) n ↔ Spare locals n :=
          (spare_concat hx).trans (and_iff_left hn)
        rw [Nat.count_succ, Nat.count_succ, ihn]
        simp only [hiff]
        omega
    rw [List.map_cons, List.mem_cons, ih hrest, List.length_cons, hname]
    constructor
    · rintro (rfl | ⟨n, hn, hlt, rfl⟩)
      · exact ⟨next, hspare, by omega, rfl⟩
      · obtain ⟨hn, hlater⟩ := (spare_concat hx).1 hn
        exact ⟨n, hn, by rw [hcount n hlater]; omega, rfl⟩
    · rintro ⟨n, hn, hlt, rfl⟩
      rcases (hleast n hn).eq_or_lt with heq | hlater
      · exact .inl (by rw [← heq])
      · rw [hcount n hlater] at hlt
        exact .inr ⟨n, (spare_concat hx).2 ⟨hn, hlater⟩, by omega, rfl⟩

theorem not_mem_of_declares (h : FreshAfter locals temps) {name : String}
    (hname : Declares locals name) : name ∉ temps.map (·.name) := by
  intro hmem
  obtain ⟨n, hn, -, rfl⟩ := h.mem_names_iff.1 hmem
  exact hn.2 (hname (by simp [temporaryName, String.toList_append]))

end FreshAfter

end TraceWeave
