import TraceWeave.Proofs.Trace.Markers
import TraceWeave.Proofs.Trace.Recovery

/-!
# The keys of records

The recorder tells records apart by their text alone: it looks for a mark anywhere in the record,
and then reads a file, a line and perhaps an index back.  If the texts in an event have no commas
and no quotes, a mark is found exactly in the records of its own kind (`Event.occursIn_mark`), and
the key that is read back is that of no other event of the kind (`Recorder.onceKey?_injective`): a
path may have colons and braces, but the numbers after it have none.
-/

namespace TraceWeave

namespace Event

/-- No text in the event has a comma or a quote. -/
def Legible (e : Event) : Prop := ∀ s ∈ e.texts, ',' ∉ s.toList ∧ '"' ∉ s.toList

instance : DecidablePred Legible := fun e =>
  inferInstanceAs (Decidable (∀ s ∈ e.texts, ',' ∉ s.toList ∧ '"' ∉ s.toList))

/-- The event is of a kind that is recorded once in a test case. -/
def isOnce : Event → Bool
  | .exercised .. | .subconditionChecked .. => true
  | _ => false

/-- What marks the records of a kind with this name. -/
def mark (name : String) : String := quoted "event" ++ ":" ++ quoted name

end Event

/-! ## Where a mark is found -/

namespace Text

theorem hasPart_nil {part : List Char} (hne : part ≠ []) : hasPart part [] = false := by
  cases part with
  | nil => exact absurd rfl hne
  | cons c rest => rfl

/-- A part without the separator is found in joined pieces if it is found in one of them. -/
theorem hasPart_intercalate {part : List Char} {sep : Char} (hsep : sep ∉ part) (hne : part ≠ [])
    (pieces : List (List Char)) :
    hasPart part ([sep].intercalate pieces) = pieces.any (hasPart part) := by
  induction pieces with
  | nil => simpa [List.intercalate] using hasPart_nil hne
  | cons l rest ih =>
    cases rest with
    | nil => simp [List.intercalate]
    | cons l' rest =>
      have hjoin : [sep].intercalate (l :: l' :: rest) =
          l ++ sep :: [sep].intercalate (l' :: rest) := by simp [List.intercalate_cons_cons]
      rw [hjoin, hasPart_append_cons hsep, ih]
      rfl

theorem hasPart_between {part : List Char} {first last : Char} (hfirst : first ∉ part)
    (hlast : last ∉ part) (hne : part ≠ []) (l : List Char) :
    hasPart part (first :: l ++ [last]) = hasPart part l := by
  have hstart := hasPart_append_cons hfirst [] (l ++ [last])
  rw [List.nil_append] at hstart
  rw [List.cons_append, hstart, hasPart_append_cons hlast, hasPart_nil hne, Bool.false_or,
    Bool.or_false]

end Text

namespace Record

open Event

/-- The mark of a kind is found in a written pair only as its beginning, if the value has no more
quotes than the mark's. -/
theorem mark_infix_written {name : String} (hname : '"' ∉ name.toList) {p : String × String}
    (hkey : '"' ∉ p.1.toList) (hvalue : p.2.toList.count '"' ≤ 2)
    (h : written ("event", quoted name) <:+: written p) :
    p.1 = "event" ∧ (quoted name).toList <+: p.2.toList := by
  obtain ⟨before, after, htext⟩ := h
  have hpair : written p = '"' :: (p.1.toList ++ '"' :: ':' :: p.2.toList) := by
    simp [written, quoted]
  have hmark : written ("event", quoted name) =
      '"' :: ("event".toList ++ '"' :: ':' :: (quoted name).toList) := by
    simp [written, quoted]
  -- The pair has no quotes to spare for text before the mark.
  have hbefore : before = [] := by
    have hcount := congrArg (List.count '"') htext
    rw [hpair, hmark] at hcount
    have hmarked : (quoted name).toList.count '"' = 2 := by
      simp [quoted, List.count_eq_zero.2 hname]
    have hevent : "event".toList.count '"' = 0 := by decide
    simp only [List.count_append, List.count_cons_self, List.count_eq_zero.2 hkey, hmarked, hevent,
      List.count_cons_of_ne (show ':' ≠ '"' by decide)] at hcount
    have hnone : '"' ∉ before := List.count_eq_zero.1 (by omega)
    cases before with
    | nil => rfl
    | cons c rest =>
      rw [hpair] at htext
      have hc : c = '"' := by simpa using congrArg List.head? htext
      exact absurd (hc ▸ List.mem_cons_self) hnone
  rw [hbefore, List.nil_append, hpair, hmark, List.cons_append, List.cons.injEq, List.append_assoc]
    at htext
  have hcut := congrArg (Text.splitFirst? '"') htext.2
  rw [List.cons_append, Text.splitFirst?_append_cons (by decide),
    Text.splitFirst?_append_cons hkey, Option.some.injEq, Prod.mk.injEq, List.cons_append,
    List.cons.injEq] at hcut
  exact ⟨String.toList_inj.1 hcut.1.symm, after, hcut.2.2⟩

/-- Only the pair that names the kind shows the mark. -/
theorem hasPart_written {name : String} (hname : '"' ∉ name.toList) {p : String × String}
    (hkey : '"' ∉ p.1.toList) (hvalue : p.2.toList.count '"' ≤ 2) (hne : p.1 ≠ "event") :
    Text.hasPart (mark name).toList (written p) = false := by
  refine Bool.eq_false_iff.2 fun h => hne ?_
  exact (mark_infix_written hname hkey hvalue (Text.hasPart_iff.1 h)).1

/-- The pair that names a kind shows the mark of that kind. -/
theorem hasPart_written_event {name kind : String} (hname : '"' ∉ name.toList)
    (hkind : '"' ∉ kind.toList) :
    Text.hasPart (mark name).toList (written ("event", quoted kind)) = (kind == name) := by
  rw [Bool.eq_iff_iff, Text.hasPart_iff, beq_iff_eq]
  constructor
  · intro h
    have htwo : (quoted kind).toList.count '"' ≤ 2 := by
      simp [quoted, List.count_eq_zero.2 hkind]
    have hevent : '"' ∉ "event".toList := by decide
    obtain ⟨-, after, hafter⟩ :=
      mark_infix_written (p := ("event", quoted kind)) hname hevent htwo h
    have hcut : name.toList ++ '"' :: after = kind.toList ++ '"' :: [] := by
      simpa [quoted] using hafter
    have hsplit := congrArg (Text.splitFirst? '"') hcut
    rw [Text.splitFirst?_append_cons hname, Text.splitFirst?_append_cons hkind] at hsplit
    rw [Option.some.injEq, Prod.mk.injEq] at hsplit
    exact String.toList_inj.1 hsplit.1.symm
  · rintro rfl
    exact List.infix_rfl

end Record

namespace Event

open Record

/-- A mark in an object is a mark in one of its pairs. -/
theorem occursIn_flatObject {part : String} (hcomma : ',' ∉ part.toList)
    (hopen : '\x7b' ∉ part.toList) (hclose : '\x7d' ∉ part.toList) (hne : part.toList ≠ [])
    (pairs : List (String × String)) :
    Text.occursIn part (flatObject pairs) =
      pairs.any fun p => Text.hasPart part.toList (written p) := by
  have htext : (flatObject pairs).toList =
      '\x7b' :: [','].intercalate (pairs.map written) ++ ['\x7d'] := by
    rw [flatObject, String.toList_append, String.toList_append, String.toList_intercalate,
      List.map_map]
    rfl
  rw [Text.occursIn, htext, Text.hasPart_between hopen hclose hne,
    Text.hasPart_intercalate hcomma hne, List.any_map]
  rfl

theorem count_quoted {s : String} (h : '"' ∉ s.toList) : (quoted s).toList.count '"' = 2 := by
  simp [quoted, List.count_eq_zero.2 h]

theorem count_number (n : UInt32) : (number n).toList.count '"' = 0 :=
  List.count_eq_zero.2 (not_mem_number (by decide) n)

/-- What an object names first is its kind, and under no other key it names one. -/
theorem pairs_eq_cons {e : Event} (he : e.Legible) (hstart : e.kind ≠ .testStart)
    (hend : e.kind ≠ .testEnd) :
    ∃ others, e.pairs = ("event", quoted e.kind.name) :: others ∧
      ∀ p ∈ others, p.1 ∈ otherKeys ∧ p.2.toList.count '"' ≤ 2 := by
  have hquoted {s : String} (hs : ',' ∉ s.toList ∧ '"' ∉ s.toList) :
      (quoted s).toList.count '"' ≤ 2 := (count_quoted hs.2).le
  have hline (n : UInt32) : (quoted (number n)).toList.count '"' ≤ 2 :=
    (count_quoted (List.count_eq_zero.1 (count_number n))).le
  have hindex (n : UInt32) : (number n).toList.count '"' ≤ 2 := by
    rw [count_number]
    omega
  cases e with
  | testStart test => exact absurd rfl hstart
  | testEnd test => exact absurd rfl hend
  | exercised file line =>
    have hfile := hquoted (he file (by simp [texts]))
    exact ⟨_, rfl, by simp [otherKeys, hfile, hline line]⟩
  | subconditionChecked file line index =>
    have hfile := hquoted (he file (by simp [texts]))
    exact ⟨_, rfl, by simp [otherKeys, hfile, hline line, hindex index]⟩
  | condition file line index left operator right =>
    have hfile := hquoted (he file (by simp [texts]))
    have hleft := hquoted (he left (by simp [texts]))
    have hoperator := hquoted (he operator (by simp [texts]))
    have hright := hquoted (he right (by simp [texts]))
    exact ⟨_, rfl, by simp [otherKeys, hfile, hline line, hindex index, hleft, hoperator, hright]⟩
  | var file line name ty source value =>
    have hfile := hquoted (he file (by simp [texts]))
    have hname := hquoted (he name (by simp [texts]))
    have hty := hquoted (he ty (by simp [texts]))
    have hsource := hquoted (he source (by simp [texts]))
    have hvalue := hquoted (he value (by simp [texts]))
    exact ⟨_, rfl, by simp [otherKeys, hfile, hline line, hname, hty, hsource, hvalue]⟩
  | fieldAccessed file line field =>
    have hfile := hquoted (he file (by simp [texts]))
    have hfield := hquoted (he field (by simp [texts]))
    exact ⟨_, rfl, by simp [otherKeys, hfile, hline line, hfield]⟩

theorem quote_not_mem_name (k : EventKind) : '"' ∉ k.name.toList := by cases k <;> decide

theorem name_injective {k k' : EventKind} (h : k.name = k'.name) : k = k' := by
  cases k <;> cases k' <;> first | rfl | exact absurd h (by decide)

/-- The marks by which the recorder finds what is recorded once are in the records of their own kind
and in no others. -/
theorem occursIn_mark {e : Event} (he : e.Legible) {k : EventKind}
    (hk : k = .exercised ∨ k = .subconditionChecked) :
    Text.occursIn (mark k.name) e.encode = decide (e.kind = k) := by
  have hmarker {test : String} (htest : ∀ s ∈ [test], ',' ∉ s.toList ∧ '"' ∉ s.toList) :
      Recorder.Overlooks test := by
    have hnone {part : String} (hpart : '"' ∈ part.toList) : Text.occursIn part test = false :=
      Bool.eq_false_iff.2 fun h => (htest test (by simp)).2 ((Text.hasPart_iff.1 h).subset hpart)
    exact ⟨hnone (by decide), hnone (by decide)⟩
  have hoverlooked {record : String} (h : Recorder.Overlooks record) :
      Text.occursIn (mark k.name) record = false := by
    rcases hk with rfl | rfl
    · exact h.2
    · exact h.1
  have hname := quote_not_mem_name k
  by_cases hstart : e.kind = .testStart
  · obtain ⟨test, rfl⟩ : ∃ test, e = .testStart test := by
      cases e <;> first | exact ⟨_, rfl⟩ | cases hstart
    rw [hoverlooked (Recorder.overlooks_testStart (hmarker he))]
    rcases hk with rfl | rfl <;> rfl
  by_cases hend : e.kind = .testEnd
  · obtain ⟨test, rfl⟩ : ∃ test, e = .testEnd test := by
      cases e <;> first | exact ⟨_, rfl⟩ | cases hend
    rw [hoverlooked (Recorder.overlooks_testEnd (hmarker he))]
    rcases hk with rfl | rfl <;> rfl
  obtain ⟨others, hpairs, hothers⟩ := pairs_eq_cons he hstart hend
  have hencode : e.encode = flatObject e.pairs := by
    cases e <;> first | rfl | exact absurd rfl hstart | exact absurd rfl hend
  have hrest : (others.any fun p => Text.hasPart (mark k.name).toList (written p)) = false := by
    refine List.any_eq_false.2 fun p hp => Bool.eq_false_iff.1 ?_
    obtain ⟨hkey, hvalue⟩ := hothers p hp
    have hplain : '"' ∉ p.1.toList ∧ p.1 ≠ "event" :=
      (show ∀ key ∈ otherKeys, '"' ∉ key.toList ∧ key ≠ "event" by decide) _ hkey
    exact hasPart_written hname hplain.1 hvalue hplain.2
  have hkind : '"' ∉ e.kind.name.toList := quote_not_mem_name e.kind
  rw [hencode, hpairs, occursIn_flatObject, List.any_cons, hrest, Bool.or_false,
    hasPart_written_event hname hkind, Bool.eq_iff_iff, beq_iff_eq, decide_eq_true_eq]
  · exact ⟨name_injective, congrArg _⟩
  all_goals rcases hk with rfl | rfl <;> decide

/-! ## What is read back as a key -/

/-- Without quotes in its texts, an event without commas is legible. -/
theorem Legible.commaFree {e : Event} (he : e.Legible) : e.CommaFree := fun s hs => (he s hs).1

/-- The key under which an event is remembered; lines and branches are remembered apart. -/
def onceKey? : Event → Option (EventKind × String)
  | .exercised file line => some (.exercised, file ++ ":" ++ number line)
  | .subconditionChecked file line index =>
    some (.subconditionChecked, file ++ ":" ++ number line ++ ":" ++ number index)
  | _ => none

theorem isSome_onceKey? (e : Event) : e.onceKey?.isSome = e.isOnce := by cases e <;> rfl

theorem append_number_injective {s s' : String} {n n' : UInt32}
    (h : s ++ ":" ++ number n = s' ++ ":" ++ number n') : s = s' ∧ n = n' := by
  have htext : s.toList ++ ':' :: (number n).toList = s'.toList ++ ':' :: (number n').toList := by
    simpa using congrArg String.toList h
  obtain ⟨hs, hn⟩ := Text.append_cons_inj htext (not_mem_number (by decide) n)
    (not_mem_number (by decide) n')
  exact ⟨String.toList_inj.1 hs, UInt32.toNat_inj.1 (Text.numeral_injective hn)⟩

/-- Different events have different keys, whatever stands in their paths. -/
theorem onceKey?_injective {e e' : Event} {key : EventKind × String} (h : e.onceKey? = some key)
    (h' : e'.onceKey? = some key) : e = e' := by
  have hsame : e.onceKey? = e'.onceKey? := h.trans h'.symm
  cases e with
  | exercised file line =>
    cases e' with
    | exercised file' line' =>
      obtain ⟨rfl, rfl⟩ := append_number_injective (Prod.mk.inj (Option.some.inj hsame)).2
      rfl
    | subconditionChecked => nomatch (Prod.mk.inj (Option.some.inj hsame)).1
    | _ => cases h'
  | subconditionChecked file line index =>
    cases e' with
    | exercised => nomatch (Prod.mk.inj (Option.some.inj hsame)).1
    | subconditionChecked file' line' index' =>
      obtain ⟨hline, rfl⟩ := append_number_injective (Prod.mk.inj (Option.some.inj hsame)).2
      obtain ⟨rfl, rfl⟩ := append_number_injective hline
      rfl
    | _ => cases h'
  | _ => cases h

end Event

namespace Recorder

/-- The key under which the recorder remembers a record, as it reads it. -/
def onceKey? (record : String) : Option (EventKind × String) :=
  if Text.occursIn branchMark record then some (.subconditionChecked, Record.branchKey record)
  else if Text.occursIn lineMark record then some (.exercised, Record.lineKey record)
  else none

/-- The recorder reads the key of a legible event back from its record. -/
theorem onceKey?_encode {e : Event} (he : e.Legible) : onceKey? e.encode = e.onceKey? := by
  have hbranch : Text.occursIn branchMark e.encode = decide (e.kind = .subconditionChecked) :=
    Event.occursIn_mark (k := .subconditionChecked) he (.inr rfl)
  have hline : Text.occursIn lineMark e.encode = decide (e.kind = .exercised) :=
    Event.occursIn_mark (k := .exercised) he (.inl rfl)
  rw [onceKey?, hbranch, hline]
  cases e with
  | exercised file line =>
    rw [Record.lineKey_encode he.commaFree rfl]
    rfl
  | subconditionChecked file line index =>
    rw [Record.branchKey_encode he.commaFree rfl rfl]
    rfl
  | _ => rfl

end Recorder

end TraceWeave
