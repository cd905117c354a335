import TraceWeave.Proofs.Trace.Records
import Mathlib.Data.List.Nodup

/-!
# Events recovered from records

A record is written without escapes and read without refusals, and all that stands in the way of
reading it back is a comma.  `Event.entries` is what an object-shaped event says under each of its
keys; if none of its texts has a comma, these are the fields of its record, whatever quotes, colons,
braces, blanks and line feeds stand in the texts (`Record.recovers_encode`).
-/

namespace TraceWeave

namespace Event

/-! ## What an event says -/

/-- The texts in an event. -/
def texts : Event → List String
  | .exercised file _ | .subconditionChecked file _ _ => [file]
  | .condition file _ _ left operator right => [file, left, operator, right]
  | .var file _ name ty source value => [file, name, ty, source, value]
  | .fieldAccessed file _ field => [file, field]
  | .testStart test | .testEnd test => [test]

/-- No text in the event has a comma. -/
def CommaFree (e : Event) : Prop := ∀ s ∈ e.texts, ',' ∉ s.toList

instance : DecidablePred CommaFree := fun e =>
  inferInstanceAs (Decidable (∀ s ∈ e.texts, ',' ∉ s.toList))

/-- The file and the line of an object-shaped event; the markers around a test have none. -/
def place? : Event → Option (String × UInt32)
  | .exercised file line | .subconditionChecked file line _ | .condition file line _ _ _ _
  | .var file line _ _ _ _ | .fieldAccessed file line _ => some (file, line)
  | .testStart _ | .testEnd _ => none

/-- The number of the branch that an event is about. -/
def index? : Event → Option UInt32
  | .subconditionChecked _ _ index | .condition _ _ index _ _ _ => some index
  | _ => none

/-- What an object-shaped event says under each of its keys, in order. -/
def entries : Event → List (String × String)
  | .exercised file line => [("event", "EXERCISED"), ("file", file), ("line", number line)]
  | .subconditionChecked file line index =>
    [("event", "SUBCONDITION_CHECKED"), ("file", file), ("line", number line),
      ("index", number index)]
  | .condition file line index left operator right =>
    [("event", "CONDITION"), ("file", file), ("line", number line), ("index", number index),
      ("OP_left", left), ("operator", operator), ("OP_right", right)]
  | .var file line name ty source value =>
    [("event", "VAR"), ("file", file), ("line", number line), ("name", name), ("type", ty),
      ("source", source), ("value", value)]
  | .fieldAccessed file line field =>
    [("event", "FIELD_ACCESSED"), ("file", file), ("line", number line), ("field", field)]
  | .testStart _ | .testEnd _ => []

variable {e e' : Event} {file : String} {line : UInt32}

theorem encode_of_place? (h : e.place? = some (file, line)) : e.encode = flatObject e.pairs := by
  cases e <;> first | rfl | cases h

/-- An event says its kind, file and line first. -/
theorem entries_of_place? (h : e.place? = some (file, line)) :
    [("event", e.kind.name), ("file", file), ("line", number line)] <+: e.entries := by
  cases e <;> cases h <;> exact List.prefix_append _ _

theorem index_mem_entries {index : UInt32} (h : e.index? = some index) :
    ("index", number index) ∈ e.entries := by
  cases e <;> cases h <;> simp [entries]

theorem keys_entries_nodup (e : Event) : (e.entries.map (·.1)).Nodup := by
  cases e <;> simp [entries]

theorem number_inj {m n : UInt32} : number m = number n ↔ m = n :=
  ⟨fun h => UInt32.toNat_inj.1 (Text.numeral_injective (congrArg String.toList h)), congrArg number⟩

/-- What an object-shaped event says determines it. -/
theorem entries_injective (h : e.place? = some (file, line)) (hentries : e'.entries = e.entries) :
    e' = e := by
  cases e with
  | testStart test => cases h
  | testEnd test => cases h
  | _ => cases e' <;> simp_all [entries, number_inj]

/-! ## Reading the pairs of an object -/

/-- Plain pairs are read back as they were written. -/
theorem pairs_flatObject_of_plain {pairs : List (String × String)} (hne : pairs ≠ [])
    (h : ∀ p ∈ pairs, (':' ∉ p.1.toList ∧ ',' ∉ p.1.toList) ∧ ',' ∉ p.2.toList) :
    Record.pairs (flatObject pairs) = pairs.map fun p => (p.1, Record.readBack p.2.toList) := by
  obtain ⟨first, last, rfl⟩ : ∃ first last, pairs = first ++ [last] :=
    ⟨_, _, (List.dropLast_append_getLast hne).symm⟩
  obtain ⟨piece, pieces, hcut, hread⟩ := Record.pairs_flatObject (fun p hp => (h p hp).1)
    fun p hp => (h p (by simp [hp])).2
  rw [Text.splitOn_of_not_mem (h last (by simp)).2] at hcut
  obtain ⟨rfl, rfl⟩ := List.cons.inj hcut
  rw [hread]
  simp

theorem isBlank_of_isDigit {c : Char} (h : c.isDigit = true) : Text.isBlank c = false := by
  have hvalue : 48 ≤ c.toNat ∧ c.toNat ≤ 57 := by
    simpa [Char.isDigit, UInt32.le_iff_toNat_le] using h
  obtain ⟨hlow, hhigh⟩ := hvalue
  have hdigits : ∀ n < 58, 48 ≤ n → Text.isBlank (Char.ofNat n) = false := by decide
  rw [← Char.ofNat_toNat c]
  exact hdigits c.toNat (by omega) hlow

theorem readBack_number (n : UInt32) : Record.readBack (number n).toList = number n := by
  have hdigits : ∀ c ∈ (number n).toList, c.isDigit = true := fun c =>
    Text.isDigit_of_mem_numeral
  have hne : (number n).toList ≠ [] := by
    rw [number, Nat.toString_eq_repr, Nat.toList_repr]
    exact Nat.toDigits_ne_nil
  have hends : Text.HasVisibleEnds (number n).toList :=
    ⟨⟨_, List.head?_eq_some_head hne, isBlank_of_isDigit (hdigits _ (List.head_mem hne))⟩,
      ⟨_, List.getLast?_eq_some_getLast hne, isBlank_of_isDigit (hdigits _ (List.getLast_mem hne))⟩⟩
  rw [Record.readBack, Text.trimEnd_eq_self hends.last, Record.unquote, Text.trim_eq_self hends]
  cases htext : (number n).toList with
  | nil => exact absurd htext hne
  | cons c rest =>
    have hc : c ≠ '"' := fun hc => absurd (hdigits '"' (by simp [htext, hc])) (by decide)
    rw [← htext]
    split
    · next heq => exact absurd (List.cons.inj (htext.symm.trans heq)).1 hc
    · exact String.ofList_toList

/-- The keys that an event writes have no colons and no commas, and without commas in its texts it
writes none at all. -/
theorem plain_pairs (he : e.CommaFree) :
    ∀ p ∈ e.pairs, (':' ∉ p.1.toList ∧ ',' ∉ p.1.toList) ∧ ',' ∉ p.2.toList := by
  have hquoted {s : String} (hs : s ∈ e.texts) : ',' ∉ (quoted s).toList :=
    not_mem_quoted (by decide) (he s hs)
  cases e with
  | testStart test => exact fun p hp => absurd hp List.not_mem_nil
  | testEnd test => exact fun p hp => absurd hp List.not_mem_nil
  | _ =>
    simp only [texts, List.mem_cons, List.not_mem_nil, or_false, forall_eq_or_imp, forall_eq]
      at hquoted
    simp [pairs, hquoted, comma_number, not_mem_quoted]

/-- An object without commas in its texts is read back as what the event says. -/
theorem pairs_encode (he : e.CommaFree) (h : e.place? = some (file, line)) :
    Record.pairs e.encode = e.entries := by
  have hne : e.pairs ≠ [] := by cases e <;> first | exact List.cons_ne_nil _ _ | cases h
  rw [encode_of_place? h, pairs_flatObject_of_plain hne (plain_pairs he)]
  cases e <;> simp [pairs, entries, Record.readBack_quoted, readBack_number]

end Event

namespace Record

open Event (number)

/-! ## The record as a table -/

/-- Keys that stand once have one value each. -/
theorem get?_eq_some_iff {record : String} (h : ((pairs record).map (·.1)).Nodup)
    {key value : String} : get? record key = some value ↔ (key, value) ∈ pairs record := by
  rw [get?, Option.map_eq_some_iff]
  constructor
  · rintro ⟨⟨key', value'⟩, hfind, rfl⟩
    have hkey : key' = key := by simpa using List.find?_some hfind
    exact List.mem_reverse.1 (hkey ▸ List.mem_of_find?_eq_some hfind)
  · intro hmem
    have hsome : ((pairs record).reverse.find? fun p => p.1 == key).isSome :=
      List.find?_isSome.2 ⟨_, List.mem_reverse.2 hmem, beq_self_eq_true _⟩
    obtain ⟨p, hp⟩ := Option.isSome_iff_exists.1 hsome
    have hkey : p.1 = key := by simpa using List.find?_some hp
    have hp' : p ∈ pairs record := List.mem_reverse.1 (List.mem_of_find?_eq_some hp)
    exact ⟨p, hp, congrArg Prod.snd (List.inj_on_of_nodup_map h hp' hmem hkey)⟩

/-- Where no key is repeated, the fields of a record are its pairs. -/
theorem fields_eq_pairs {record : String} (h : ((pairs record).map (·.1)).Nodup) :
    fields record = pairs record := by
  unfold fields
  generalize pairs record = l at h
  induction l with
  | nil => rfl
  | cons p rest ih =>
    rw [List.map_cons, List.nodup_cons] at h
    have hnew : ¬ (rest.any fun q => q.1 == p.1) = true := by
      rw [List.any_eq_true]
      rintro ⟨q, hq, heq⟩
      exact h.1 (List.mem_map.2 ⟨q, hq, by simpa using heq⟩)
    rw [List.foldr_cons, ih h.2, if_neg hnew]

section

variable {e : Event} {file : String} {line : UInt32} (he : e.CommaFree)
  (h : e.place? = some (file, line))

include he h

theorem get?_encode {key value : String} :
    get? e.encode key = some value ↔ (key, value) ∈ e.entries := by
  rw [get?_eq_some_iff, Event.pairs_encode he h]
  rw [Event.pairs_encode he h]
  exact e.keys_entries_nodup

theorem fields_encode : fields e.encode = e.entries := by
  rw [fields_eq_pairs, Event.pairs_encode he h]
  rw [Event.pairs_encode he h]
  exact e.keys_entries_nodup

theorem getText_encode {key value : String} (hmem : (key, value) ∈ e.entries) :
    getText e.encode key = value := by
  rw [getText, (get?_encode he h).2 hmem, Option.getD_some]

theorem lineKey_encode : lineKey e.encode = file ++ ":" ++ number line := by
  have hfile : ("file", file) ∈ e.entries := (Event.entries_of_place? h).subset (by simp)
  have hline : ("line", number line) ∈ e.entries := (Event.entries_of_place? h).subset (by simp)
  rw [lineKey, getText_encode he h hfile, getText_encode he h hline]

theorem branchKey_encode {index : UInt32} (hindex : e.index? = some index) :
    branchKey e.encode = file ++ ":" ++ number line ++ ":" ++ number index := by
  rw [branchKey, lineKey_encode he h, getText_encode he h (Event.index_mem_entries hindex)]

end

/-- The kind of an event is read back from its record. -/
theorem kind_encode_of_commaFree {e : Event} (he : e.CommaFree) : kind e.encode = e.kind := by
  cases hplace : e.place? with
  | none =>
    cases e with
    | testStart test => exact kind_testStart test
    | testEnd test => exact kind_testEnd test
    | _ => cases hplace
  | some place =>
    have hevent : get? e.encode "event" = some e.kind.name :=
      (get?_encode he hplace).2 ((Event.entries_of_place? hplace).subset (by simp))
    rw [Event.encode_of_place? hplace] at hevent ⊢
    rw [kind_flatObject, hevent]
    cases e <;> first | rfl | cases hplace

/-- The reader of records inverts the writer of events without commas: it finds the kind of every
event and, of an object-shaped one, exactly what the event says and the keys of its place. -/
theorem recovers_encode {e : Event} (he : e.CommaFree) :
    kind e.encode = e.kind ∧
      ∀ file line, e.place? = some (file, line) →
        fields e.encode = e.entries ∧
          (∀ key value, get? e.encode key = some value ↔ (key, value) ∈ e.entries) ∧
          lineKey e.encode = file ++ ":" ++ number line ∧
          (∀ index, e.index? = some index →
            branchKey e.encode = file ++ ":" ++ number line ++ ":" ++ number index) ∧
          ∀ e' : Event, e'.CommaFree → e'.place?.isSome → e'.encode = e.encode → e' = e := by
  refine ⟨kind_encode_of_commaFree he, fun file line h => ⟨fields_encode he h,
    fun _ _ => get?_encode he h, lineKey_encode he h, fun _ => branchKey_encode he h, ?_⟩⟩
  intro e' he' hplace' hencode
  obtain ⟨place', h'⟩ := Option.isSome_iff_exists.1 hplace'
  refine Event.entries_injective h ?_
  calc e'.entries = pairs e'.encode := (Event.pairs_encode he' h').symm
    _ = pairs e.encode := by rw [hencode]
    _ = e.entries := Event.pairs_encode he h

/-- A condition whose texts have quotes, braces, colons, blanks and line feeds. -/
def crowded : Event :=
  .condition " a:b\x7d.java" 7 2 "\"x\":\"y\"" "" "\x7b\n\"event\":\"VAR\" "

theorem recovers_crowded :
    crowded.CommaFree ∧ crowded.place? = some (" a:b\x7d.java", 7) ∧ crowded.index? = some 2 ∧
      kind crowded.encode = .condition ∧
      fields crowded.encode =
        [("event", "CONDITION"), ("file", " a:b\x7d.java"), ("line", "7"), ("index", "2"),
          ("OP_left", "\"x\":\"y\""), ("operator", ""),
          ("OP_right", "\x7b\n\"event\":\"VAR\" ")] ∧
      branchKey crowded.encode = " a:b\x7d.java:7:2" := by
  have hfree : crowded.CommaFree := by decide
  obtain ⟨hkind, hplaced⟩ := recovers_encode hfree
  obtain ⟨hfields, -, -, hbranch, -⟩ := hplaced " a:b\x7d.java" 7 rfl
  exact ⟨hfree, rfl, rfl, hkind, hfields, hbranch 2 rfl⟩

end Record

end TraceWeave
