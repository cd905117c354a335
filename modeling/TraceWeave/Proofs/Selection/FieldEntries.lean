import TraceWeave.Proofs.Text.Reading
import TraceWeave.Selection.Fields

/-!
# What a field selection monitors

An entry is cut at its first dot, and the class of a field is looked up with its package and
without it.  A class with a package has a dot in its name, so no entry that was read from a text is
found under it: what a text monitors are the fields that it names by the class without the package
(`FieldSelection.monitors_parse_iff`).  An entry with the full name of the class, as the trace
writes it, does not monitor the field unless the class has no package
(`FieldSelection.monitors_iff_names`).
-/

namespace TraceWeave

namespace Text

theorem afterLast_of_not_mem {sep : Char} {l : List Char} (h : sep ∉ l) : afterLast sep l = l := by
  rw [afterLast, List.takeWhile_eq_self_iff.2, List.reverse_reverse]
  intro c hc
  exact decide_eq_true fun hsep => h (hsep ▸ List.mem_reverse.1 hc)

theorem not_mem_afterLast (sep : Char) (l : List Char) : sep ∉ afterLast sep l := by
  intro h
  have hne := List.mem_takeWhile_imp (List.mem_reverse.1 h)
  simp at hne

/-- A text without line feeds is one line. -/
theorem lines_of_not_mem {l : List Char} (h : '\n' ∉ l) (hne : l ≠ []) : lines l = [l] := by
  rw [lines, splitOn_of_not_mem h]
  simp [hne]

end Text

open Text

/-- What remains of the name of a class without a package is the name. -/
theorem FieldRef.simpleOwner_of_not_mem {f : FieldRef} (h : '.' ∉ f.owner.toList) :
    f.simpleOwner = f.owner := by
  rw [simpleOwner, simpleName, afterLast_of_not_mem h, String.ofList_toList]

theorem FieldRef.not_mem_simpleOwner (f : FieldRef) : '.' ∉ f.simpleOwner.toList := by
  rw [simpleOwner, simpleName, String.toList_ofList]
  exact not_mem_afterLast _ _

namespace FieldSelection

/-- An entry is read as a class and a field exactly if these stand on either side of its first
dot. -/
theorem entry?_eq_some_iff {line : List Char} {owner name : String} :
    entry? line = some (owner, name) ↔
      trim line = owner.toList ++ '.' :: name.toList ∧ '.' ∉ owner.toList := by
  unfold entry?
  rw [Option.map_eq_some_iff]
  constructor
  · rintro ⟨⟨before, after⟩, hsplit, h⟩
    cases h
    rw [String.toList_ofList, String.toList_ofList]
    exact splitFirst?_eq_some_iff.1 hsplit
  · intro h
    refine ⟨_, splitFirst?_eq_some_iff.2 h, ?_⟩
    rw [String.ofList_toList, String.ofList_toList]

theorem mem_entries_parse {text owner name : String} :
    (owner, name) ∈ (parse text).entries ↔ ∃ line ∈ lines text.toList,
      trim line = owner.toList ++ '.' :: name.toList ∧ '.' ∉ owner.toList := by
  simp only [parse, List.mem_filterMap, entry?_eq_some_iff]

/-- A text monitors the fields that it names by the class without its package. -/
theorem monitors_parse_iff (text : String) (f : FieldRef) :
    (parse text).monitors f = true ↔ ∃ line ∈ lines text.toList,
      trim line = f.simpleOwner.toList ++ '.' :: f.name.toList := by
  rw [monitors, Bool.or_eq_true, List.contains_iff_mem, List.contains_iff_mem, mem_entries_parse,
    mem_entries_parse]
  constructor
  · rintro (⟨line, hline, htrim, hdot⟩ | ⟨line, hline, htrim, -⟩)
    · exact ⟨line, hline, by rw [f.simpleOwner_of_not_mem hdot, htrim]⟩
    · exact ⟨line, hline, htrim⟩
  · rintro ⟨line, hline, htrim⟩
    exact .inr ⟨line, hline, htrim, f.not_mem_simpleOwner⟩

/-- The text names the field: one of its lines is, up to blanks around it, the class of the field,
with its package or without it, a dot, and the name of the field. -/
def Names (text : String) (f : FieldRef) : Prop :=
  ∃ line ∈ lines text.toList, ∃ owner, (owner = f.owner ∨ owner = f.simpleOwner) ∧
    trim line = owner.toList ++ '.' :: f.name.toList

/-- A word that can stand in an entry: there is something to it, and no blank. -/
structure IsWord (s : String) : Prop where
  ne_nil : s.toList ≠ []
  visible : ∀ c ∈ s.toList, isBlank c = false

theorem isWord_of_all {s : String} (hne : s.toList.isEmpty = false)
    (h : (s.toList.all fun c => !isBlank c) = true) : IsWord s :=
  ⟨by simpa using hne, by simpa using h⟩

/-- A text that is nothing but the qualified name of a field names the field. -/
theorem lines_qualifiedName {f : FieldRef} (howner : IsWord f.owner) (hname : IsWord f.name) :
    lines f.qualifiedName.toList = [f.owner.toList ++ '.' :: f.name.toList] ∧
      trim (f.owner.toList ++ '.' :: f.name.toList) = f.owner.toList ++ '.' :: f.name.toList := by
  have htext : f.qualifiedName.toList = f.owner.toList ++ '.' :: f.name.toList := by
    simp [FieldRef.qualifiedName]
  have hfirst : ∃ c, f.owner.toList.head? = some c ∧ isBlank c = false := by
    obtain ⟨c, rest, hc⟩ := List.exists_cons_of_ne_nil howner.ne_nil
    exact ⟨c, by rw [hc]; rfl, howner.visible c (by simp [hc])⟩
  have hlast : ∃ c, f.name.toList.getLast? = some c ∧ isBlank c = false :=
    ⟨_, List.getLast?_eq_some_getLast hname.ne_nil, hname.visible _ (List.getLast_mem _)⟩
  have hfeed : '\n' ∉ f.owner.toList ++ '.' :: f.name.toList := by
    intro h
    rcases List.mem_append.1 h with h | h
    · exact absurd (howner.visible _ h) (by decide)
    · rcases List.mem_cons.1 h with h | h
      · cases h
      · exact absurd (hname.visible _ h) (by decide)
  rw [htext]
  exact ⟨lines_of_not_mem hfeed (by simp), trim_eq_self (.between hfirst hlast ['.'])⟩

/-- What a text monitors, and when that is what it names.  A text monitors a field exactly if it
names it by the class without its package.  So exactly for the fields of classes without a package,
every text monitors the field that it names. -/
theorem monitors_iff_names {f : FieldRef} (howner : IsWord f.owner) (hname : IsWord f.name) :
    (∀ text, (parse text).monitors f = true ↔ ∃ line ∈ lines text.toList,
        trim line = f.simpleOwner.toList ++ '.' :: f.name.toList) ∧
      ((∀ text, (parse text).monitors f = true ↔ Names text f) ↔ '.' ∉ f.owner.toList) := by
  refine ⟨fun text => monitors_parse_iff text f, fun h hdot => ?_, fun hdot text => ?_⟩
  · obtain ⟨hlines, htrim⟩ := lines_qualifiedName howner hname
    have hnames : Names f.qualifiedName f :=
      ⟨_, by rw [hlines]; exact List.mem_singleton_self _, f.owner, .inl rfl, htrim⟩
    obtain ⟨line, hline, hsimple⟩ := (monitors_parse_iff _ f).1 ((h _).2 hnames)
    rw [hlines, List.mem_singleton] at hline
    rw [hline, htrim, List.append_cancel_right_eq] at hsimple
    exact f.not_mem_simpleOwner (hsimple ▸ hdot)
  · rw [monitors_parse_iff, Names]
    simp only [f.simpleOwner_of_not_mem hdot, or_self, exists_eq_left]

/-- The entry of a field with its package, as the trace writes it, does not monitor the field; the
one without the package does. -/
theorem monitors_packaged :
    let f : FieldRef := ⟨"com.acme.Foo", "count", .int⟩
    IsWord f.owner ∧ IsWord f.name ∧ Names f.qualifiedName f ∧
      (parse f.qualifiedName).monitors f = false ∧ (parse "Foo.count").monitors f = true ∧
      ¬ ∀ text, (parse text).monitors f = true ↔ Names text f := by
  intro f
  have howner : IsWord f.owner := isWord_of_all (by decide) (by decide)
  have hname : IsWord f.name := isWord_of_all (by decide) (by decide)
  obtain ⟨hlines, htrim⟩ := lines_qualifiedName howner hname
  exact ⟨howner, hname,
    ⟨_, by rw [hlines]; exact List.mem_singleton_self _, f.owner, .inl rfl, htrim⟩,
    by decide, by decide, fun h => (monitors_iff_names howner hname).2.1 h (by decide)⟩

end FieldSelection

end TraceWeave
