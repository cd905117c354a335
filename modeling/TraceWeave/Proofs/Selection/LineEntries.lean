import TraceWeave.Proofs.Selection.LineSet
import TraceWeave.Proofs.Text.Numerals
import TraceWeave.Proofs.Text.Reading
import Mathlib.Data.List.Forall2

/-!
# What a line selection requests

The grammar of line selections, said without the reader: an entry is a path, a colon and items with
commas between them (`LineSelection.Reads`), and an item is a number or a range of numbers
(`LineSelection.Item`).  The reader takes exactly the lines of this form and makes of them the runs
that the items request (`LineSelection.entry?_eq_some_iff`).

A selection keeps its entries in the order of the text, and the lines for a path are put together
when they are asked for.  They are kept in a form that depends on nothing but the lines themselves,
so the order of the entries and their repetition do not show (`LineSelection.readsExactly_parse`).
-/

namespace TraceWeave

namespace Text

/-- A number can be written with digits and a plus sign only, and with blanks around it. -/
theorem Writes.not_mem {l : List Char} {n : Nat} (h : Writes (trim l) n) {c : Char}
    (hblank : isBlank c = false) (hdigit : c.isDigit = false) (hplus : c ≠ '+') : c ∉ l := by
  obtain ⟨digits, hdigits, -, hall, -⟩ := h
  obtain ⟨b, b', hb, hb', hl⟩ := exists_eq_trim l
  have hnumber : c ∉ digits := fun hc => by
    rw [hall c hc] at hdigit
    cases hdigit
  have htrim : c ∉ trim l := by
    rcases hdigits with hdigits | hdigits <;> simp [hdigits, hplus, hnumber]
  rw [hl]
  simp [htrim, not_mem_of_allBlank hb hblank, not_mem_of_allBlank hb' hblank]

end Text

theorem mapM_eq_some_iff {α β : Type} {f : α → Option β} {l : List α} {l' : List β} :
    l.mapM f = some l' ↔ l.map f = l'.map some := by
  induction l generalizing l' with
  | nil => cases l' <;> simp
  | cons a rest ih =>
    rw [List.mapM_cons, List.map_cons]
    cases l' with
    | nil => cases f a <;> cases rest.mapM f <;> simp
    | cons b rest' =>
      rw [List.map_cons, List.cons.injEq, ← ih]
      cases f a <;> cases rest.mapM f <;> simp

namespace LineSelection

open Text

/-! ## Items -/

/-- What an item requests.  A number requests its line, and two numbers on either side of the first
hyphen request the lines from one to the other, if these are in order and not too many.  Blanks
around a number do not count. -/
inductive Item : List Char → LineRun → Prop
  /-- The item is a number. -/
  | number {item : List Char} {n : UInt32} (written : Writes (trim item) n.toNat) :
    Item item (.single n)
  /-- The item is a range. -/
  | range {start stop : List Char} {first last : UInt32} (hyphen : '-' ∉ start)
    (written : Writes (trim start) first.toNat) (written' : Writes (trim stop) last.toNat)
    (ordered : first ≤ last) (narrow : last.toNat - first.toNat < 100000) :
    Item (start ++ '-' :: stop) ⟨first, last⟩

theorem lineNumber?_eq_some_iff {l : List Char} {n : UInt32} :
    lineNumber? l = some n ↔ Writes (trim l) n.toNat := by
  rw [lineNumber?, ← natural?_eq_some_iff, Option.bind_eq_some_iff]
  constructor
  · rintro ⟨k, hk, h⟩
    split at h
    · next hlt =>
      cases h
      rwa [UInt32.toNat_ofNat_of_lt' hlt]
    · cases h
  · exact fun h => ⟨n.toNat, h, by rw [if_pos n.toNat_lt, UInt32.ofNat_toNat]⟩

theorem run?_of_splitFirst? {start stop : List Char} (h : '-' ∉ start) :
    run? (start ++ '-' :: stop) = (lineNumber? start).bind fun first =>
      (lineNumber? stop).bind fun last =>
        if last < first || maxSpan ≤ last.toNat - first.toNat then none
        else some ⟨first, last⟩ := by
  rw [run?, splitFirst?_append_cons h]
  rfl

theorem run?_of_not_mem {item : List Char} (h : '-' ∉ item) :
    run? item = (lineNumber? item).map .single := by
  rw [run?, splitFirst?_of_not_mem h]

theorem not_refused_iff {first last : UInt32} :
    ¬ (decide (last < first) || decide (maxSpan ≤ last.toNat - first.toNat)) = true ↔
      first ≤ last ∧ last.toNat - first.toNat < 100000 := by
  rw [Bool.or_eq_true, not_or, decide_eq_true_eq, decide_eq_true_eq, UInt32.not_lt, Nat.not_le]
  rfl

/-- The reader takes an item exactly if it requests something, and makes that of it. -/
theorem run?_eq_some_iff {item : List Char} {r : LineRun} : run? item = some r ↔ Item item r := by
  constructor
  · intro h
    by_cases hyphen : '-' ∈ item
    · obtain ⟨start, stop, rfl, hstart⟩ := List.eq_append_cons_of_mem hyphen
      rw [run?_of_splitFirst? hstart] at h
      obtain ⟨first, hfirst, h⟩ := Option.bind_eq_some_iff.1 h
      obtain ⟨last, hlast, h⟩ := Option.bind_eq_some_iff.1 h
      split at h
      · cases h
      · next hfits =>
        cases h
        obtain ⟨ordered, narrow⟩ := not_refused_iff.1 hfits
        exact .range hstart (lineNumber?_eq_some_iff.1 hfirst) (lineNumber?_eq_some_iff.1 hlast)
          ordered narrow
    · rw [run?_of_not_mem hyphen] at h
      obtain ⟨n, hn, rfl⟩ := Option.map_eq_some_iff.1 h
      exact .number (lineNumber?_eq_some_iff.1 hn)
  · intro h
    cases h with
    | number written =>
      rw [run?_of_not_mem (written.not_mem (by decide) (by decide) (by decide)),
        lineNumber?_eq_some_iff.2 written]
      rfl
    | range hyphen written written' ordered narrow =>
      rw [run?_of_splitFirst? hyphen, lineNumber?_eq_some_iff.2 written,
        lineNumber?_eq_some_iff.2 written', Option.bind_some, Option.bind_some,
        if_neg (not_refused_iff.2 ⟨ordered, narrow⟩)]

theorem lineNumber?_surrounded {b b' : List Char} (hb : allBlank b) (hb' : allBlank b')
    (l : List Char) : lineNumber? (b ++ (l ++ b')) = lineNumber? l := by
  rw [lineNumber?, lineNumber?, trim_surrounded hb hb']

/-- Blanks around an item do not matter. -/
theorem run?_surrounded {b b' : List Char} (hb : allBlank b) (hb' : allBlank b')
    (item : List Char) : run? (b ++ (item ++ b')) = run? item := by
  have hyphen : ∀ {b}, allBlank b → '-' ∉ b := fun hb => not_mem_of_allBlank hb (by decide)
  by_cases hmem : '-' ∈ item
  · obtain ⟨start, stop, rfl, hstart⟩ := List.eq_append_cons_of_mem hmem
    have hnil : allBlank [] := rfl
    have hleft : lineNumber? (b ++ start) = lineNumber? start := by
      simpa using lineNumber?_surrounded hb hnil start
    have hright : lineNumber? (stop ++ b') = lineNumber? stop :=
      lineNumber?_surrounded hnil hb' stop
    have hassoc : b ++ (start ++ '-' :: stop ++ b') = (b ++ start) ++ '-' :: (stop ++ b') := by
      simp
    rw [hassoc, run?_of_splitFirst? (by simp [hstart, hyphen hb]), run?_of_splitFirst? hstart,
      hleft, hright]
  · rw [run?_of_not_mem hmem, run?_of_not_mem (by simp [hmem, hyphen hb, hyphen hb']),
      lineNumber?_surrounded hb hb']

/-! ## Entries -/

/-- The line is an entry: the path and the items stand on either side of its only colon, the items
have commas between them, and each of them requests the run in the same place. -/
def Reads (line : List Char) (path : String) (runs : List LineRun) : Prop :=
  ∃ before numbers, line.splitOn ':' = [before, numbers] ∧ trim before = path.toList ∧
    List.Forall₂ Item (numbers.splitOn ',') runs

theorem lineSet?_trim_eq_some_iff {numbers : List Char} {s : LineSet} :
    lineSet? (trim numbers) = some s ↔
      ∃ runs, List.Forall₂ Item (numbers.splitOn ',') runs ∧ .ofRuns runs = s := by
  rw [lineSet?, Option.map_eq_some_iff]
  refine exists_congr fun runs => and_congr_left' ?_
  have hitem : (fun item run => run? item = some run) = Item :=
    funext₂ fun _ _ => propext run?_eq_some_iff
  rw [mapM_eq_some_iff, map_splitOn_trim (by decide) fun b l b' hb hb' => run?_surrounded hb hb' l,
    splitOn_eq_splitOn, ← List.forall₂_eq_eq_eq, List.forall₂_map_left_iff,
    List.forall₂_map_right_iff, hitem]

/-- The reader takes a line exactly if it is an entry, and makes of it what the items request. -/
theorem entry?_eq_some_iff {line : List Char} {path : String} {s : LineSet} :
    entry? line = some (path, s) ↔ ∃ runs, Reads line path runs ∧ .ofRuns runs = s := by
  have hpath : ∀ before : List Char, String.ofList (trim before) = path ↔
      trim before = path.toList := fun before => by
    rw [← String.toList_inj, String.toList_ofList]
  unfold entry?
  rw [splitOn_eq_splitOn]
  split
  · next before numbers hsplit =>
    simp only [Option.map_eq_some_iff, lineSet?_trim_eq_some_iff, Prod.mk.injEq, hpath, Reads,
      hsplit, List.cons.injEq, and_true]
    constructor
    · rintro ⟨_, ⟨runs, hitems, rfl⟩, htrim, rfl⟩
      exact ⟨runs, ⟨before, numbers, ⟨rfl, rfl⟩, htrim, hitems⟩, rfl⟩
    · rintro ⟨runs, ⟨_, _, ⟨rfl, rfl⟩, htrim, hitems⟩, rfl⟩
      exact ⟨_, ⟨runs, hitems, rfl⟩, htrim, rfl⟩
  · next hsplit =>
    refine iff_of_false (fun h => by cases h) ?_
    rintro ⟨runs, ⟨before, numbers, h, -⟩, -⟩
    exact hsplit before numbers h

/-! ## Selections -/

theorem mem_entries_parse {text : String} {e : String × LineSet} :
    e ∈ (parse text).entries ↔
      ∃ line ∈ lines text.toList, ∃ runs, Reads line e.1 runs ∧ .ofRuns runs = e.2 := by
  simp only [parse, List.mem_filterMap, ← entry?_eq_some_iff]

/-- The lines that are put together from sets are those of the sets. -/
theorem mem_foldr_union {entries : List (String × LineSet)} {n : UInt32} :
    n ∈ entries.foldr (fun e lines => e.2.union lines) ∅ ↔ ∃ e ∈ entries, n ∈ e.2 := by
  induction entries with
  | nil => simpa using LineSet.not_mem_empty n
  | cons e rest ih =>
    simp only [List.foldr_cons, LineSet.mem_union e.2 (ascends_foldr_union rest), ih,
      List.mem_cons, exists_eq_or_imp]

variable {s t : LineSelection} {path : String}

theorem get?_of_entry (h : ∃ e ∈ s.entries, e.1 = path) :
    s.get? path = some ((s.entries.filter fun e => e.1 == path).foldr
      (fun e lines => e.2.union lines) ∅) := by
  obtain ⟨e, he, hpath⟩ := h
  rw [get?]
  split
  · next hnil => exact absurd (beq_iff_eq.2 hpath) (List.filter_eq_nil_iff.1 hnil e he)
  · rfl

theorem get?_of_no_entry (h : ¬ ∃ e ∈ s.entries, e.1 = path) : s.get? path = none := by
  have hnil : (s.entries.filter fun e => e.1 == path) = [] :=
    List.filter_eq_nil_iff.2 fun e he hpath => h ⟨e, he, beq_iff_eq.1 hpath⟩
  rw [get?, hnil]

theorem isSome_get?_iff : (s.get? path).isSome ↔ ∃ e ∈ s.entries, e.1 = path := by
  by_cases h : ∃ e ∈ s.entries, e.1 = path
  · rw [get?_of_entry h]
    exact iff_of_true rfl h
  · rw [get?_of_no_entry h]
    exact iff_of_false (by simp) h

/-- The lines for a path are those of its entries, in the one form that a set has. -/
theorem get?_eq_some_iff {requested : LineSet} : s.get? path = some requested ↔
    (∃ e ∈ s.entries, e.1 = path) ∧ requested.Ascends ∧
      ∀ n, n ∈ requested ↔ ∃ e ∈ s.entries, e.1 = path ∧ n ∈ e.2 := by
  by_cases h : ∃ e ∈ s.entries, e.1 = path
  · have hlines : ∀ n, n ∈ (s.entries.filter fun e => e.1 == path).foldr
        (fun e lines => e.2.union lines) ∅ ↔ ∃ e ∈ s.entries, e.1 = path ∧ n ∈ e.2 := fun n => by
      simp only [mem_foldr_union, List.mem_filter, beq_iff_eq, and_assoc]
    rw [get?_of_entry h, Option.some.injEq, and_iff_right h]
    constructor
    · rintro rfl
      exact ⟨ascends_foldr_union _, hlines⟩
    · rintro ⟨hascends, hrequested⟩
      exact (ascends_foldr_union _).eq_of_lines hascends fun n =>
        (hlines n).trans (hrequested n).symm
  · rw [get?_of_no_entry h]
    exact iff_of_false (fun hnone => by cases hnone) fun hentry => h hentry.1

/-- A selection is what its entries are, whatever their order and however often they stand. -/
theorem get?_congr (h : ∀ e, e ∈ s.entries ↔ e ∈ t.entries) : s.get? path = t.get? path := by
  refine Option.ext fun requested => ?_
  rw [get?_eq_some_iff, get?_eq_some_iff]
  simp only [h]

/-- A line that is no entry does not count. -/
theorem parse_eq_of_not_reads {text text' : String} {before after : List (List Char)}
    {line : List Char} (htext : lines text.toList = before ++ line :: after)
    (htext' : lines text'.toList = before ++ after) (h : ∀ path runs, ¬ Reads line path runs) :
    parse text' = parse text := by
  have hnone : entry? line = none := by
    cases hentry : entry? line with
    | none => rfl
    | some e =>
      obtain ⟨runs, hreads, -⟩ := entry?_eq_some_iff.1 hentry
      exact absurd hreads (h _ _)
  rw [parse, parse, htext, htext', List.filterMap_append, List.filterMap_append,
    List.filterMap_cons_none hnone]

/-- The selection that is read from a text requests what the text says. -/
structure ReadsExactly (text : String) : Prop where
  /-- The lines for a path are those that its entries request. -/
  requested : ∀ path n, (∃ requested, (parse text).get? path = some requested ∧ n ∈ requested) ↔
    ∃ line ∈ lines text.toList, ∃ runs, Reads line path runs ∧ ∃ r ∈ runs, n ∈ r
  /-- There are lines for a path exactly if there is an entry for it. -/
  mentioned : ∀ path, ((parse text).get? path).isSome ↔
    ∃ line ∈ lines text.toList, ∃ runs, Reads line path runs
  /-- A line with an item that requests nothing counts as little as if it were not there. -/
  voided : ∀ before line after path numbers item,
    lines text.toList = before ++ line :: after → line.splitOn ':' = [path, numbers] →
      item ∈ numbers.splitOn ',' → (∀ r, ¬ Item item r) →
        ∀ text', lines text'.toList = before ++ after → parse text' = parse text
  /-- Another text with the same lines, in whatever order and however often, requests the same. -/
  unordered : ∀ text', (∀ line, line ∈ lines text'.toList ↔ line ∈ lines text.toList) →
    ∀ path, (parse text').get? path = (parse text).get? path

/-- Line selections are read exactly. -/
theorem readsExactly_parse (text : String) : ReadsExactly text where
  requested path n := by
    constructor
    · rintro ⟨requested, hget, hn⟩
      obtain ⟨e, he, rfl, hn⟩ := ((get?_eq_some_iff.1 hget).2.2 n).1 hn
      obtain ⟨line, hline, runs, hreads, hruns⟩ := mem_entries_parse.1 he
      exact ⟨line, hline, runs, hreads, LineSet.mem_ofRuns.1 (hruns ▸ hn)⟩
    · rintro ⟨line, hline, runs, hreads, hn⟩
      have he : (path, .ofRuns runs) ∈ (parse text).entries :=
        mem_entries_parse.2 ⟨line, hline, runs, hreads, rfl⟩
      have hentry : ∃ e ∈ (parse text).entries, e.1 = path := ⟨_, he, rfl⟩
      have hget := get?_of_entry hentry
      exact ⟨_, hget, ((get?_eq_some_iff.1 hget).2.2 n).2 ⟨_, he, rfl, LineSet.mem_ofRuns.2 hn⟩⟩
  mentioned path := by
    rw [isSome_get?_iff]
    constructor
    · rintro ⟨e, he, rfl⟩
      obtain ⟨line, hline, runs, hreads, -⟩ := mem_entries_parse.1 he
      exact ⟨line, hline, runs, hreads⟩
    · rintro ⟨line, hline, runs, hreads⟩
      exact ⟨(path, .ofRuns runs), mem_entries_parse.2 ⟨line, hline, runs, hreads, rfl⟩, rfl⟩
  voided before line after path numbers item htext hline hitem hvoid text' htext' := by
    refine parse_eq_of_not_reads htext htext' ?_
    rintro path' runs ⟨_, _, hsplit, -, hitems⟩
    rw [hline] at hsplit
    cases hsplit
    obtain ⟨k, hk, rfl⟩ := List.getElem_of_mem hitem
    exact hvoid _ (hitems.get hk (hitems.length_eq ▸ hk))
  unordered text' hlines path := by
    refine get?_congr fun e => ?_
    simp only [mem_entries_parse, hlines]

/-- The second line and the third one are void, and the fourth one adds to the first. -/
example : (parse "A.java:3,5-7\nA.java:4,x\nA.java:2:9\n A.java : 8 - 9").get? "A.java" =
    some ⟨[⟨3, 3⟩, ⟨5, 9⟩]⟩ := by
  decide

end LineSelection

end TraceWeave
