import TraceWeave.Trace.Recorder
import TraceWeave.Trace.Summary
import TraceWeave.Proofs.Trace.Records
import Mathlib.Algebra.Ring.Nat
import Mathlib.Data.String.Basic

/-!
# Summaries of logs

A log is read line by line.  A record that begins and ends with visible characters is at least one
line, and more than one exactly if a line feed stands in it, so the summary of a log counts its
records right exactly if none of them has a line feed (`LogSummary.records_eq_iff`).  The counts by
kind are those of the records that were read (`LogSummary.count_ofLog`).
-/

namespace TraceWeave

/-! ## Counting by key -/

/-- The keys of a table ascend without repetition. -/
def Ascends (table : List (String × Nat)) : Prop := table.Pairwise fun p q => p.1 < q.1

theorem mem_addCount {key : String} {n : Nat} {table : List (String × Nat)} {p : String × Nat}
    (h : p ∈ addCount key n table) : p.1 = key ∨ ∃ q ∈ table, q.1 = p.1 := by
  induction table with
  | nil => exact .inl (by rw [List.mem_singleton.1 h])
  | cons q rest ih =>
    rw [addCount] at h
    split at h
    · rcases List.mem_cons.1 h with rfl | h
      · exact .inl rfl
      · exact .inr ⟨p, h, rfl⟩
    · split at h
      · next heq =>
        rcases List.mem_cons.1 h with rfl | h
        · exact .inl heq.symm
        · exact .inr ⟨p, by simp [h], rfl⟩
      · rcases List.mem_cons.1 h with rfl | h
        · exact .inr ⟨q, by simp, rfl⟩
        · exact (ih h).imp_right fun ⟨r, hr, heq⟩ => ⟨r, by simp [hr], heq⟩

theorem Ascends.addCount {table : List (String × Nat)} (h : Ascends table) (key : String)
    (n : Nat) : Ascends (addCount key n table) := by
  induction h with
  | nil => exact List.pairwise_singleton _ _
  | @cons q rest hq hrest ih =>
    rw [TraceWeave.addCount]
    split
    · next hlt =>
      refine .cons (fun p hp => ?_) (.cons hq hrest)
      rcases List.mem_cons.1 hp with rfl | hp
      · exact hlt
      · exact hlt.trans (hq p hp)
    · split
      · exact .cons hq hrest
      · next hlt hne =>
        refine .cons (fun p hp => ?_) ih
        rcases mem_addCount hp with heq | ⟨r, hr, heq⟩
        · exact heq ▸ lt_of_le_of_ne (le_of_not_gt hlt) (Ne.symm hne)
        · exact heq ▸ hq r hr

theorem lookup_eq_none {key : String} {table : List (String × Nat)}
    (h : ∀ p ∈ table, key < p.1) : table.lookup key = none := by
  rw [List.lookup_eq_none_iff]
  intro p hp
  simpa using (h p hp).ne

theorem lookup_cons (key other : String) (n : Nat) (table : List (String × Nat)) :
    List.lookup other ((key, n) :: table) = if key = other then some n else table.lookup other := by
  rw [List.lookup_cons]
  by_cases h : key = other
  · simp [h]
  · simp [h, beq_eq_false_iff_ne.2 (Ne.symm h)]

theorem lookup_addCount {table : List (String × Nat)} (h : Ascends table) (key other : String)
    (n : Nat) : (addCount key n table).lookup other =
      if key = other then some ((table.lookup other).getD 0 + n) else table.lookup other := by
  induction h with
  | nil =>
    rw [addCount, lookup_cons]
    simp
  | @cons q rest hq hrest ih =>
    obtain ⟨k, m⟩ := q
    rw [addCount]
    split
    · next hlt =>
      rw [lookup_cons]
      split
      · next heq =>
        have hnone : ((k, m) :: rest).lookup other = none := lookup_eq_none fun p hp => by
          rcases List.mem_cons.1 hp with rfl | hp
          · exact heq ▸ hlt
          · exact heq ▸ hlt.trans (hq p hp)
        simp [hnone]
      · rfl
    · split
      · next heq =>
        rw [lookup_cons, lookup_cons, heq]
        split <;> rfl
      · next hne =>
        rw [lookup_cons, lookup_cons]
        split
        · next hother => rw [if_neg fun heq => hne (heq.trans hother.symm)]
        · exact ih

theorem getD_lookup_addCount {table : List (String × Nat)} (h : Ascends table)
    (key other : String) (n : Nat) :
    ((addCount key n table).lookup other).getD 0 =
      (table.lookup other).getD 0 + if key = other then n else 0 := by
  rw [lookup_addCount h]
  split <;> rfl

theorem getD_lookup_sumByKey (counts : List (String × Nat)) (key : String) :
    ((sumByKey counts).lookup key).getD 0 = ((counts.filter fun c => c.1 = key).map (·.2)).sum := by
  have hfold : ∀ (counts table : List (String × Nat)), Ascends table →
      ((counts.foldl (fun table c => addCount c.1 c.2 table) table).lookup key).getD 0 =
        (table.lookup key).getD 0 + ((counts.filter fun c => c.1 = key).map (·.2)).sum := by
    intro counts
    induction counts with
    | nil => exact fun _ _ => rfl
    | cons c rest ih =>
      intro table h
      rw [List.foldl_cons, ih _ (h.addCount _ _), getD_lookup_addCount h, List.filter_cons]
      by_cases hc : c.1 = key
      · simp [hc, Nat.add_assoc]
      · simp [hc]
  exact (hfold counts [] .nil).trans (Nat.zero_add _)

theorem ascends_sumByKey (counts : List (String × Nat)) : Ascends (sumByKey counts) :=
  List.foldlRecOn (motive := Ascends) counts _ .nil fun _ h c _ => h.addCount c.1 c.2

theorem Ascends.mem_iff_lookup {table : List (String × Nat)} (h : Ascends table) {key : String}
    {n : Nat} : (key, n) ∈ table ↔ table.lookup key = some n := by
  induction h with
  | nil => simp
  | @cons q rest hq _ ih =>
    obtain ⟨k, m⟩ := q
    rw [lookup_cons, List.mem_cons]
    split
    · next heq =>
      have hrest : (key, n) ∉ rest := fun hmem => (hq _ hmem).ne heq
      simp [hrest, heq, eq_comm]
    · next hne => simp [ih, Ne.symm hne]

theorem pos_of_mem_addCount {key : String} {n : Nat} {table : List (String × Nat)} (hn : 0 < n)
    (h : ∀ p ∈ table, 0 < p.2) : ∀ p ∈ addCount key n table, 0 < p.2 := by
  induction table with
  | nil => simpa [addCount] using hn
  | cons q rest ih =>
    rw [List.forall_mem_cons] at h
    rw [addCount]
    split
    · exact List.forall_mem_cons.2 ⟨hn, List.forall_mem_cons.2 h⟩
    · split
      · exact List.forall_mem_cons.2 ⟨Nat.add_pos_right _ hn, h.2⟩
      · exact List.forall_mem_cons.2 ⟨h.1, ih h.2⟩

/-- If all counts are positive, the table has the keys whose sum is positive, with that sum. -/
theorem mem_sumByKey {counts : List (String × Nat)} (h : ∀ c ∈ counts, 0 < c.2) {key : String}
    {n : Nat} : (key, n) ∈ sumByKey counts ↔
      0 < n ∧ ((counts.filter fun c => c.1 = key).map (·.2)).sum = n := by
  have hpos : ∀ p ∈ sumByKey counts, 0 < p.2 :=
    List.foldlRecOn (motive := fun table : List (String × Nat) => ∀ p ∈ table, 0 < p.2) counts _
      (by simp) fun _ htable c hc => pos_of_mem_addCount (h c hc) htable
  rw [← getD_lookup_sumByKey, (ascends_sumByKey counts).mem_iff_lookup]
  cases hlookup : (sumByKey counts).lookup key with
  | none => simp; omega
  | some m =>
    have hm := hpos _ ((ascends_sumByKey counts).mem_iff_lookup.2 hlookup)
    rw [Option.some.injEq, Option.getD_some]
    exact ⟨fun heq => ⟨heq ▸ hm, heq⟩, fun heq => heq.2⟩

theorem sum_addCount (key : String) (n : Nat) (table : List (String × Nat)) :
    ((addCount key n table).map (·.2)).sum = (table.map (·.2)).sum + n := by
  induction table with
  | nil => simp [addCount]
  | cons q rest ih =>
    rw [addCount]
    split
    · simp [Nat.add_comm]
    · split
      · simp; omega
      · simp [ih, Nat.add_assoc]

/-- No count is lost by adding up counts by key. -/
theorem sum_sumByKey (counts : List (String × Nat)) :
    ((sumByKey counts).map (·.2)).sum = (counts.map (·.2)).sum := by
  have hfold : ∀ (counts table : List (String × Nat)),
      ((counts.foldl (fun table c => addCount c.1 c.2 table) table).map (·.2)).sum =
        (table.map (·.2)).sum + (counts.map (·.2)).sum := by
    intro counts
    induction counts with
    | nil => exact fun _ => rfl
    | cons c rest ih =>
      intro table
      rw [List.foldl_cons, ih, sum_addCount, List.map_cons, List.sum_cons, Nat.add_assoc]
  exact (hfold counts []).trans (Nat.zero_add _)

/-- The count of a label is that of the thing that it is the label of. -/
theorem getD_lookup_sumByKey_labels {α : Type} [DecidableEq α] {label : α → String}
    (h : Function.Injective label) (l : List α) (a : α) :
    ((sumByKey (l.map fun b => (label b, 1))).lookup (label a)).getD 0 =
      l.countP fun b => b = a := by
  rw [getD_lookup_sumByKey]
  induction l with
  | nil => rfl
  | cons b rest ih =>
    rw [List.map_cons, List.filter_cons, List.countP_cons, ← ih]
    by_cases hb : b = a
    · simp [hb, Nat.add_comm]
    · simp [hb, h.eq_iff]

theorem EventKind.name_injective : Function.Injective EventKind.name := by
  intro k l h
  cases k <;> cases l <;> first | rfl | exact absurd h (by decide)

/-- The count of a kind is the number of its records. -/
theorem LogSummary.count_ofLog (text : String) (kind : EventKind) :
    (ofLog text).count kind = (recordsOf text).countP fun r => Record.kind r = kind := by
  rw [count, ofLog, getD_lookup_sumByKey_labels EventKind.name_injective, List.countP_map]
  rfl

/-! ## Counting lines -/

namespace Text

theorem lines_closed (records : List (List Char)) :
    lines (records.flatMap fun l => l ++ ['\n']) =
      (records.flatMap (splitOn '\n')).map dropCarriage := by
  have hsplit : splitOn '\n' (records.flatMap fun l => l ++ ['\n']) =
      records.flatMap (splitOn '\n') ++ [[]] := by
    induction records with
    | nil => rfl
    | cons l rest ih =>
      rw [List.flatMap_cons, List.append_assoc, List.singleton_append, splitOn_append_cons, ih,
        List.flatMap_cons, List.append_assoc]
  simp [lines, hsplit]

theorem allBlank_dropCarriage (l : List Char) : allBlank (dropCarriage l) = allBlank l := by
  rw [dropCarriage]
  split
  · next rest h =>
    have hall : l.all isBlank = l.reverse.all isBlank := List.all_reverse.symm
    rw [allBlank, allBlank, List.all_reverse, hall, h, List.all_cons]
    rfl
  · rfl

/-- The number of lines of a record that are not blank. -/
def visibleLines (l : List Char) : Nat :=
  ((splitOn '\n' l).map dropCarriage).countP fun l => !allBlank l

theorem visibleLines_append_cons (l l' : List Char) :
    visibleLines (l ++ '\n' :: l') = visibleLines l + visibleLines l' := by
  rw [visibleLines, splitOn_append_cons, List.map_append, List.countP_append]
  rfl

theorem exists_piece {sep c : Char} (h : c ≠ sep) {l : List Char} (hc : c ∈ l) :
    ∃ piece ∈ splitOn sep l, c ∈ piece := by
  induction l with
  | nil => cases hc
  | cons d rest ih =>
    by_cases hd : d = sep
    · obtain ⟨piece, hpiece, hmem⟩ := ih ((List.mem_cons.1 hc).resolve_left (hd ▸ h))
      refine ⟨piece, ?_, hmem⟩
      rw [← List.nil_append (d :: rest), hd, splitOn_append_cons]
      exact List.mem_append_right _ hpiece
    · rw [← List.singleton_append, splitOn_append_of_not_mem (by simpa using Ne.symm hd)]
      cases hpieces : splitOn sep rest with
      | nil => exact absurd hpieces (splitOn_ne_nil sep rest)
      | cons first pieces =>
        rcases List.mem_cons.1 hc with rfl | hc
        · exact ⟨_, List.mem_cons_self, by simp⟩
        · obtain ⟨piece, hpiece, hmem⟩ := ih hc
          rw [hpieces] at hpiece
          rcases List.mem_cons.1 hpiece with rfl | hpiece
          · exact ⟨_, List.mem_cons_self, by simp [hmem]⟩
          · exact ⟨piece, List.mem_cons_of_mem _ hpiece, hmem⟩

/-- A visible character stands on some line. -/
theorem visibleLines_pos {l : List Char} {c : Char} (hc : c ∈ l) (hvisible : isBlank c = false) :
    0 < visibleLines l := by
  have hne : c ≠ '\n' := fun h => by
    rw [h] at hvisible
    cases hvisible
  obtain ⟨piece, hpiece, hmem⟩ := exists_piece hne hc
  rw [visibleLines, List.countP_pos_iff]
  refine ⟨dropCarriage piece, List.mem_map_of_mem hpiece, ?_⟩
  rw [allBlank_dropCarriage, Bool.not_eq_true', allBlank, List.all_eq_false]
  exact ⟨c, hmem, by simp [hvisible]⟩

/-- Between visible ends, there is one line exactly if there is no line feed. -/
theorem visibleLines_eq_one_iff {l : List Char} (h : HasVisibleEnds l) :
    visibleLines l = 1 ↔ '\n' ∉ l := by
  obtain ⟨first, hfirst, hvisible⟩ := h.first
  obtain ⟨last, hlast, hvisible'⟩ := h.last
  constructor
  · intro hone hmem
    obtain ⟨start, rest, rfl⟩ := List.append_of_mem hmem
    have hstart : first ∈ start := by
      cases start with
      | nil =>
        cases hfirst
        cases hvisible
      | cons c start =>
        cases hfirst
        exact List.mem_cons_self
    have hrest : last ∈ rest := by
      rcases List.eq_nil_or_concat rest with rfl | ⟨rest, d, rfl⟩
      · simp only [List.getLast?_append, List.getLast?_singleton] at hlast
        cases hlast
        cases hvisible'
      · rw [List.concat_eq_append, ← List.cons_append, ← List.append_assoc,
          List.getLast?_concat] at hlast
        cases hlast
        simp
    rw [visibleLines_append_cons] at hone
    have := visibleLines_pos hstart hvisible
    have := visibleLines_pos hrest hvisible'
    omega
  · intro hmem
    have hpos := visibleLines_pos (List.mem_of_mem_head? hfirst) hvisible
    have hle : visibleLines l ≤ 1 := by
      rw [visibleLines, splitOn_of_not_mem hmem]
      exact List.countP_le_length
    omega

theorem sum_eq_length_iff {α : Type} {f : α → Nat} {l : List α} (h : ∀ a ∈ l, 0 < f a) :
    (l.map f).sum = l.length ↔ ∀ a ∈ l, f a = 1 := by
  have hle : ∀ {l : List α}, (∀ a ∈ l, 0 < f a) → l.length ≤ (l.map f).sum := by
    intro l
    induction l with
    | nil => exact fun _ => le_refl _
    | cons a rest ih =>
      intro h
      have := h a (by simp)
      have := ih fun b hb => h b (by simp [hb])
      simp only [List.length_cons, List.map_cons, List.sum_cons]
      omega
  induction l with
  | nil => simp
  | cons a rest ih =>
    have hpos := h a (by simp)
    have hrest : ∀ b ∈ rest, 0 < f b := fun b hb => h b (by simp [hb])
    have hmore := hle hrest
    simp only [List.map_cons, List.sum_cons, List.length_cons, List.forall_mem_cons]
    refine ⟨fun hsum => ⟨by omega, (ih hrest).1 (by omega)⟩, fun hone => ?_⟩
    have := (ih hrest).2 hone.2
    omega

end Text

/-! ## Logs -/

open Text

variable {sink : Sink}

theorem Sink.toList_text (sink : Sink) :
    sink.text.toList = (sink.lines.toList.map String.toList).flatMap fun l => l ++ ['\n'] := by
  simp [text, String.toList_join, List.flatMap_map]

namespace LogSummary

theorem length_recordsOf (sink : Sink) : (recordsOf sink.text).length =
    ((sink.lines.toList.map String.toList).map visibleLines).sum := by
  rw [recordsOf, List.length_map, Sink.toList_text, lines_closed, ← List.countP_eq_length_filter,
    List.map_flatMap, List.countP_flatMap]
  rfl

/-- The records of a log are counted right exactly if no record has a line feed. -/
theorem records_eq_iff (h : ∀ r ∈ sink.lines.toList, HasVisibleEnds r.toList) :
    (ofLog sink.text).records = sink.lines.size ↔ ∀ r ∈ sink.lines.toList, '\n' ∉ r.toList := by
  have hends : ∀ l ∈ sink.lines.toList.map String.toList, HasVisibleEnds l := by
    intro l hl
    obtain ⟨r, hr, rfl⟩ := List.mem_map.1 hl
    exact h r hr
  have hrecords : (ofLog sink.text).records =
      ((sink.lines.toList.map String.toList).map visibleLines).sum := by
    rw [← length_recordsOf, ofLog, List.length_map]
  have hsize : sink.lines.size = (sink.lines.toList.map String.toList).length := by simp
  rw [hrecords, hsize, sum_eq_length_iff fun l hl => ?_]
  · rw [List.forall_mem_map]
    exact forall₂_congr fun r hr => visibleLines_eq_one_iff (h r hr)
  · obtain ⟨c, hc, hvisible⟩ := (hends l hl).first
    exact visibleLines_pos (List.mem_of_mem_head? hc) hvisible

/-- Without line feeds in them, the records of a log are read back. -/
theorem recordsOf_text (h : ∀ r ∈ sink.lines.toList, HasVisibleEnds r.toList)
    (hlines : ∀ r ∈ sink.lines.toList, '\n' ∉ r.toList) :
    recordsOf sink.text = sink.lines.toList := by
  have hpieces : (sink.lines.toList.map String.toList).flatMap (splitOn '\n') =
      sink.lines.toList.map String.toList := by
    rw [List.flatMap_map]
    refine (List.flatMap_congr fun r hr => splitOn_of_not_mem (hlines r hr)).trans ?_
    exact List.map_eq_flatMap.symm
  have hdrop : ∀ r ∈ sink.lines.toList, dropCarriage r.toList = r.toList := by
    intro r hr
    obtain ⟨c, hc, hvisible⟩ := (h r hr).last
    rw [dropCarriage]
    split
    · next rest heq =>
      rw [← List.head?_reverse, heq] at hc
      cases hc
      cases hvisible
    · rfl
  have hvisible : ∀ r ∈ sink.lines.toList, allBlank r.toList = false := by
    intro r hr
    obtain ⟨c, hc, hvisible⟩ := (h r hr).first
    rw [allBlank, List.all_eq_false]
    exact ⟨c, List.mem_of_mem_head? hc, by simp [hvisible]⟩
  rw [recordsOf, Sink.toList_text, lines_closed, hpieces, List.map_map]
  have hmap : sink.lines.toList.map (dropCarriage ∘ String.toList) =
      sink.lines.toList.map String.toList := List.map_congr_left hdrop
  rw [hmap, List.filter_eq_self.2, List.map_map]
  · exact (List.map_congr_left fun r _ => String.ofList_toList).trans (List.map_id _)
  · intro l hl
    obtain ⟨r, hr, rfl⟩ := List.mem_map.1 hl
    rw [hvisible r hr]
    rfl

end LogSummary

end TraceWeave
