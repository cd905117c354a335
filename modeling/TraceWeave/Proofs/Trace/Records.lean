import TraceWeave.Trace.Record
import TraceWeave.Proofs.Text.Numerals
import TraceWeave.Proofs.Text.Reading

/-!
# What is read back from a record

A marker is told by how it begins, and an object by what it names as its event.  The reader of
objects is lenient: it cuts at every comma, and the value of a captured variable is written as it
is, so the pieces of such a value are read like keys.  If the names in an event have no commas, and
no piece of a captured value names a kind, then a record is read back as the kind that was written
(`Record.kind_encode`).
-/

namespace TraceWeave

/-! ## Visible ends -/

namespace Event

open Text

theorem hasVisibleEnds_quoted (s : String) : HasVisibleEnds (quoted s).toList := by
  rw [quoted, String.toList_append, String.toList_append, List.append_assoc]
  exact .between ⟨'"', rfl, rfl⟩ ⟨'"', rfl, rfl⟩ _

theorem hasVisibleEnds_flatObject (pairs : List (String × String)) :
    HasVisibleEnds (flatObject pairs).toList := by
  rw [flatObject, String.toList_append, String.toList_append, List.append_assoc]
  exact .between ⟨'\x7b', rfl, rfl⟩ ⟨'\x7d', rfl, rfl⟩ _

/-- A record begins and ends with visible characters, whatever it says. -/
theorem hasVisibleEnds_encode (e : Event) : HasVisibleEnds e.encode.toList := by
  cases e with
  | testStart test =>
    rw [encode, String.toList_append, String.toList_append, List.append_assoc]
    exact .between ⟨'=', rfl, rfl⟩ ⟨'=', rfl, rfl⟩ _
  | testEnd test =>
    rw [encode, String.toList_append, String.toList_append, List.append_assoc]
    exact .between ⟨'=', rfl, rfl⟩ ⟨'=', rfl, rfl⟩ _
  | _ => exact hasVisibleEnds_flatObject _

end Event

/-! ## The kind of a record -/

namespace Record

theorem namedKind_ne (name : Option String) :
    namedKind name ≠ .testStart ∧ namedKind name ≠ .testEnd := by
  unfold namedKind
  split <;> exact ⟨nofun, nofun⟩

theorem kind_testStart (test : String) : kind (Event.testStart test).encode = .testStart := by
  rw [kind, Text.trim_eq_self (Event.hasVisibleEnds_encode _), Event.encode, String.toList_append,
    String.toList_append, List.append_assoc, if_pos]
  exact List.isPrefixOf_iff_prefix.2 (List.prefix_append _ _)

theorem kind_testEnd (test : String) : kind (Event.testEnd test).encode = .testEnd := by
  rw [kind, Text.trim_eq_self (Event.hasVisibleEnds_encode _), Event.encode, String.toList_append,
    String.toList_append, List.append_assoc, if_neg (Bool.eq_false_iff.1 (by rfl)), if_pos]
  exact List.isPrefixOf_iff_prefix.2 (List.prefix_append _ _)

/-- An object is of the kind that it names. -/
theorem kind_flatObject (pairs : List (String × String)) :
    kind (Event.flatObject pairs) = namedKind (get? (Event.flatObject pairs) "event") := by
  rw [kind, Text.trim_eq_self (Event.hasVisibleEnds_flatObject _), Event.flatObject,
    String.toList_append, String.toList_append, if_neg (Bool.eq_false_iff.1 (by rfl)),
    if_neg (Bool.eq_false_iff.1 (by rfl))]

/-! ## Keys and values -/

/-- The inside of an object is its pairs. -/
theorem inside_flatObject (pairs : List (String × String)) :
    inside (Event.flatObject pairs).toList =
      (",".intercalate (pairs.map fun p => Event.quoted p.1 ++ ":" ++ p.2)).toList := by
  rw [inside, Text.trim_eq_self (Event.hasVisibleEnds_flatObject _), Event.flatObject,
    String.toList_append, String.toList_append]
  simp

/-- A pair as it is written. -/
def written (p : String × String) : List Char := (Event.quoted p.1 ++ ":" ++ p.2).toList

theorem written_eq (p : String × String) :
    written p = (Event.quoted p.1).toList ++ ':' :: p.2.toList := by
  simp [written]

theorem not_mem_written {c : Char} (hquote : c ≠ '"') (hcolon : c ≠ ':') {p : String × String}
    (hkey : c ∉ p.1.toList) (hvalue : c ∉ p.2.toList) : c ∉ written p := by
  simp [written_eq, Event.quoted, hquote, hcolon, hkey, hvalue]

theorem unquote_quoted (s : String) : unquote (Event.quoted s).toList = s.toList := by
  rw [unquote, Text.trim_eq_self (Event.hasVisibleEnds_quoted s), Event.quoted,
    String.toList_append, String.toList_append]
  simp

/-- What is read back from a written value. -/
def readBack (l : List Char) : String := String.ofList (unquote (Text.trimEnd l))

theorem readBack_quoted (s : String) : readBack (Event.quoted s).toList = s := by
  rw [readBack, Text.trimEnd_eq_self (Event.hasVisibleEnds_quoted s).last, unquote_quoted,
    String.ofList_toList]

/-- A piece that begins with a quoted key is read as that key. -/
theorem pair?_of_key {key : String} (hkey : ':' ∉ key.toList) (l : List Char) :
    pair? ((Event.quoted key).toList ++ ':' :: l) = some (key, readBack l) := by
  have hstart : (Event.quoted key).toList ++ ':' :: l =
      ((Event.quoted key).toList ++ [':']) ++ l := by simp
  have htrim : Text.trim ((Event.quoted key).toList ++ ':' :: l) =
      (Event.quoted key).toList ++ ':' :: Text.trimEnd l := by
    have hends : Text.HasVisibleEnds ((Event.quoted key).toList ++ [':']) :=
      .between (Event.hasVisibleEnds_quoted key).first ⟨':', rfl, rfl⟩ []
    rw [hstart, Text.trim_append hends]
    simp
  rw [pair?, htrim, Text.splitFirst?_append_cons (by simpa [Event.quoted] using hkey)]
  simp [unquote_quoted, readBack]

/-- The pairs of an object are read back, and what follows the first comma in the last value is read
as further pairs. -/
theorem pairs_flatObject {first : List (String × String)} {last : String × String}
    (hkeys : ∀ p ∈ first ++ [last], ':' ∉ p.1.toList ∧ ',' ∉ p.1.toList)
    (hvalues : ∀ p ∈ first, ',' ∉ p.2.toList) :
    ∃ piece pieces, Text.splitOn ',' last.2.toList = piece :: pieces ∧
      pairs (Event.flatObject (first ++ [last])) =
        first.map (fun p => (p.1, readBack p.2.toList)) ++
          (last.1, readBack piece) :: pieces.filterMap pair? := by
  have hstart : ',' ∉ (Event.quoted last.1).toList ++ [':'] := by
    simpa [Event.quoted] using (hkeys last (by simp)).2
  have hfirst : ∀ l ∈ first.map written, ',' ∉ l := by
    intro l hl
    obtain ⟨p, hp, rfl⟩ := List.mem_map.1 hl
    exact not_mem_written (by decide) (by decide) (hkeys p (by simp [hp])).2 (hvalues p hp)
  have hread : first.filterMap (fun p => pair? (written p)) =
      first.map fun p => (p.1, readBack p.2.toList) := by
    rw [← List.filterMap_eq_map]
    refine List.filterMap_congr fun p hp => ?_
    rw [written_eq, pair?_of_key (hkeys p (by simp [hp])).1]
    rfl
  have hlast : Text.splitOn ',' (written last) = (Text.splitOn ',' last.2.toList).modifyHead
      ((Event.quoted last.1).toList ++ [':'] ++ ·) := by
    rw [written_eq, ← Text.splitOn_append_of_not_mem hstart]
    simp
  have hjoined : (",".intercalate ((first ++ [last]).map fun p =>
      Event.quoted p.1 ++ ":" ++ p.2)).toList =
        [','].intercalate (first.map written ++ [written last]) := by
    rw [String.toList_intercalate, List.map_map, List.map_append]
    rfl
  rw [pairs, inside_flatObject, hjoined, Text.splitOn_intercalate hfirst, hlast,
    List.filterMap_append, List.filterMap_map]
  cases hpieces : Text.splitOn ',' last.2.toList with
  | nil => exact absurd hpieces (Text.splitOn_ne_nil _ _)
  | cons piece pieces =>
    refine ⟨piece, pieces, rfl, ?_⟩
    change first.filterMap (fun p => pair? (written p)) ++ _ = _
    rw [hread, List.modifyHead_cons, List.append_assoc, List.singleton_append, List.filterMap_cons,
      pair?_of_key (hkeys last (by simp)).1]

/-- A value that is read back as naming a kind of event. -/
def NamesKind (value : String) : Prop :=
  ∃ piece ∈ (Text.splitOn ',' (Event.quoted value).toList).tail, ∃ name,
    pair? piece = some ("event", name)

/-- The keys of objects besides the one that names the kind. -/
def otherKeys : List String :=
  ["file", "line", "index", "OP_left", "operator", "OP_right", "name", "type", "source", "value",
    "field"]

/-- An object is of the kind that it names first, unless its last value names another. -/
theorem kind_of_event (name : String) (others : List (String × String)) (last : String × String)
    (hname : ',' ∉ name.toList) (hkeys : ∀ p ∈ others ++ [last], p.1 ∈ otherKeys)
    (hvalues : ∀ p ∈ others, ',' ∉ p.2.toList)
    (hlast : ∀ piece ∈ (Text.splitOn ',' last.2.toList).tail, ∀ other,
      pair? piece ≠ some ("event", other)) :
    kind (Event.flatObject (("event", Event.quoted name) :: others ++ [last])) =
      namedKind (some name) := by
  have hall : ∀ p ∈ ("event", Event.quoted name) :: others ++ [last],
      ':' ∉ p.1.toList ∧ ',' ∉ p.1.toList := by
    intro p hp
    rcases List.mem_cons.1 hp with rfl | hp
    · exact show ':' ∉ "event".toList ∧ ',' ∉ "event".toList by decide
    · exact (show ∀ key ∈ otherKeys, ':' ∉ key.toList ∧ ',' ∉ key.toList by decide) _ (hkeys p hp)
  have hne : ∀ p ∈ others ++ [last], ¬ (p.1 == "event") = true := fun p hp =>
    (show ∀ key ∈ otherKeys, ¬ (key == "event") = true by decide) _ (hkeys p hp)
  obtain ⟨piece, pieces, hcut, hpairs⟩ := pairs_flatObject hall fun p hp => by
    rcases List.mem_cons.1 hp with rfl | hp
    · simpa [Event.quoted] using hname
    · exact hvalues p hp
  -- The pairs after the first one do not name a kind.
  have hothers : ∀ p ∈ others.map (fun p => (p.1, readBack p.2.toList)) ++
      (last.1, readBack piece) :: pieces.filterMap pair?,
      ¬ (p.1 == "event") = true := by
    intro p hp
    rcases List.mem_append.1 hp with hp | hp
    · obtain ⟨q, hq, rfl⟩ := List.mem_map.1 hp
      exact hne q (by simp [hq])
    · rcases List.mem_cons.1 hp with rfl | hp
      · exact hne last (by simp)
      · obtain ⟨other, hother, hread⟩ := List.mem_filterMap.1 hp
        intro hevent
        rw [beq_iff_eq] at hevent
        rw [hcut] at hlast
        exact hlast other hother p.2 (hread.trans (by rw [← hevent]))
  rw [kind_flatObject, get?, hpairs, List.map_cons, List.cons_append, List.reverse_cons,
    List.find?_append, List.find?_eq_none.2 fun p hp => hothers p (List.mem_reverse.1 hp),
    readBack_quoted]
  rfl

end Record

/-! ## Events with plain names -/

/-- A text without commas and line feeds. -/
def Text.IsPlain (s : String) : Prop := ',' ∉ s.toList ∧ '\n' ∉ s.toList

instance : DecidablePred Text.IsPlain := fun s =>
  inferInstanceAs (Decidable (',' ∉ s.toList ∧ '\n' ∉ s.toList))

namespace Event

/-- The names in an event are plain; the name of a test may have commas. -/
def Plain : Event → Prop
  | .exercised file _ | .subconditionChecked file _ _ => Text.IsPlain file
  | .condition file _ _ left operator right =>
    Text.IsPlain file ∧ Text.IsPlain left ∧ Text.IsPlain operator ∧ Text.IsPlain right
  | .var file _ name ty source _ =>
    Text.IsPlain file ∧ Text.IsPlain name ∧ Text.IsPlain ty ∧ Text.IsPlain source
  | .fieldAccessed file _ field => Text.IsPlain file ∧ Text.IsPlain field
  | .testStart test | .testEnd test => '\n' ∉ test.toList

/-- The value that a variable held. -/
def value? : Event → Option String
  | .var _ _ _ _ _ value => some value
  | _ => none

theorem not_mem_quoted {c : Char} (hquote : c ≠ '"') {s : String} (h : c ∉ s.toList) :
    c ∉ (quoted s).toList := by
  simp [quoted, hquote, h]

theorem not_mem_number {c : Char} (h : c.isDigit = false) (n : UInt32) :
    c ∉ (number n).toList := Text.not_mem_numeral h _

theorem comma_quoted {s : String} (h : Text.IsPlain s) : ',' ∉ (quoted s).toList :=
  not_mem_quoted (by decide) h.1

theorem comma_number (n : UInt32) : ',' ∉ (number n).toList := not_mem_number (by decide) n

theorem comma_quoted_number (n : UInt32) : ',' ∉ (quoted (number n)).toList :=
  not_mem_quoted (by decide) (comma_number n)

/-- A text without commas has no further pieces. -/
theorem tail_splitOn {l : List Char} (h : ',' ∉ l) : (Text.splitOn ',' l).tail = [] := by
  rw [Text.splitOn_of_not_mem h]
  rfl

end Event

open Event in
/-- A record with plain names is of the kind that was written, unless it shows a value that names a
kind. -/
theorem Record.kind_encode {e : Event} (he : e.Plain)
    (hvalue : ∀ value, e.value? = some value → ¬ NamesKind value) : kind e.encode = e.kind := by
  cases e with
  | testStart test => exact kind_testStart test
  | testEnd test => exact kind_testEnd test
  | exercised file line =>
    exact kind_of_event "EXERCISED" [("file", quoted file)] ("line", quoted (number line))
      (by decide) (by simp [otherKeys]) (by simpa using comma_quoted he)
      (by simp [tail_splitOn (comma_quoted_number line)])
  | subconditionChecked file line index =>
    exact kind_of_event "SUBCONDITION_CHECKED"
      [("file", quoted file), ("line", quoted (number line))] ("index", number index)
      (by decide) (by simp [otherKeys]) (by simpa using ⟨comma_quoted he, comma_quoted_number line⟩)
      (by simp [tail_splitOn (comma_number index)])
  | condition file line index left operator right =>
    obtain ⟨hfile, hleft, hoperator, hright⟩ := he
    exact kind_of_event "CONDITION" [("file", quoted file), ("line", quoted (number line)),
        ("index", number index), ("OP_left", quoted left), ("operator", quoted operator)]
      ("OP_right", quoted right) (by decide) (by simp [otherKeys])
      (by simpa using ⟨comma_quoted hfile, comma_quoted_number line, comma_number index,
        comma_quoted hleft, comma_quoted hoperator⟩) (by simp [tail_splitOn (comma_quoted hright)])
  | var file line name ty source value =>
    obtain ⟨hfile, hname, hty, hsource⟩ := he
    exact kind_of_event "VAR" [("file", quoted file), ("line", quoted (number line)),
        ("name", quoted name), ("type", quoted ty), ("source", quoted source)]
      ("value", quoted value) (by decide) (by simp [otherKeys])
      (by simpa using ⟨comma_quoted hfile, comma_quoted_number line, comma_quoted hname,
        comma_quoted hty, comma_quoted hsource⟩)
      fun piece hpiece other hread => hvalue value rfl ⟨piece, hpiece, other, hread⟩
  | fieldAccessed file line field =>
    obtain ⟨hfile, hfield⟩ := he
    exact kind_of_event "FIELD_ACCESSED" [("file", quoted file), ("line", quoted (number line))]
      ("field", quoted field) (by decide) (by simp [otherKeys])
      (by simpa using ⟨comma_quoted hfile, comma_quoted_number line⟩)
      (by simp [tail_splitOn (comma_quoted hfield)])

/-! ## Line feeds in records -/

theorem mem_intercalate_iff {c sep : Char} (h : c ≠ sep) {pieces : List (List Char)} :
    c ∈ [sep].intercalate pieces ↔ ∃ l ∈ pieces, c ∈ l := by
  induction pieces with
  | nil => simp [List.intercalate]
  | cons l rest ih =>
    cases rest with
    | nil => simp [List.intercalate]
    | cons l' rest =>
      rw [List.intercalate_cons_cons, List.mem_append, List.mem_append, ih]
      simp [h]

namespace Event

/-- A line feed in an object stands in a key or in a written value. -/
theorem newline_flatObject {pairs : List (String × String)} :
    '\n' ∈ (flatObject pairs).toList ↔
      ∃ p ∈ pairs, '\n' ∈ p.1.toList ∨ '\n' ∈ p.2.toList := by
  simp [flatObject, String.toList_intercalate, mem_intercalate_iff (show '\n' ≠ ',' by decide),
    quoted]

/-- With plain names, the record of an event breaks its line only in the value of a variable. -/
theorem newline_encode {e : Event} (he : e.Plain) :
    '\n' ∈ e.encode.toList ↔ ∃ value, e.value? = some value ∧ '\n' ∈ value.toList := by
  have hnumber : ∀ n : UInt32, '\n' ∉ (number n).toList := not_mem_number (by decide)
  cases e with
  | testStart test =>
    have htest : '\n' ∉ test.toList := he
    simp [encode, testStartMark, testMarkEnd, value?, htest]
  | testEnd test =>
    have htest : '\n' ∉ test.toList := he
    simp [encode, testEndMark, testMarkEnd, value?, htest]
  | exercised file line => simp [encode, newline_flatObject, pairs, value?, quoted, hnumber, he.2]
  | subconditionChecked file line index =>
    simp [encode, newline_flatObject, pairs, value?, quoted, hnumber, he.2]
  | condition file line index left operator right =>
    obtain ⟨hfile, hleft, hoperator, hright⟩ := he
    simp [encode, newline_flatObject, pairs, value?, quoted, hnumber, hfile.2, hleft.2, hoperator.2,
      hright.2]
  | var file line name ty source value =>
    obtain ⟨hfile, hname, hty, hsource⟩ := he
    simp [encode, newline_flatObject, pairs, value?, quoted, hnumber, hfile.2, hname.2, hty.2,
      hsource.2]
  | fieldAccessed file line field =>
    obtain ⟨hfile, hfield⟩ := he
    simp [encode, newline_flatObject, pairs, value?, quoted, hnumber, hfile.2, hfield.2]

end Event

end TraceWeave
