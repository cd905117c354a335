import TraceWeave.Json.Reader
import TraceWeave.Proofs.Json.Shape

/-!
# Building documents

`Json.tokens` are the tokens that write a document, and the builder gets the document back from
them: `foldlM_tokens` says that, wherever a value may stand, the tokens of a document have the same
effect as putting the finished document there, and `ofTokens?_tokens` is the case of a whole text.
-/

namespace TraceWeave.Json

mutual

/-- The tokens that write a document. -/
def tokens : Json → List Token
  | .null => [.null]
  | .bool b => [.bool b]
  | .number n => [.number n]
  | .string s => [.string (some s)]
  | .unpaired => [.string none]
  | .array items => .openArray :: [.comma].intercalate (tokensOfItems items) ++ [.closeArray]
  | .object members =>
    .openObject :: [.comma].intercalate (tokensOfMembers members) ++ [.closeObject]

/-- The tokens of every array item. -/
def tokensOfItems : List Json → List (List Token)
  | [] => []
  | item :: rest => item.tokens :: tokensOfItems rest

/-- The tokens of every member. -/
def tokensOfMembers : List (Option String × Json) → List (List Token)
  | [] => []
  | (name, value) :: rest => (.string name :: .colon :: value.tokens) :: tokensOfMembers rest

end

/-- Joining a list puts the separator before every part but the first. -/
theorem intercalate_cons {α : Type} (a : α) (part : List α) (rest : List (List α)) :
    [a].intercalate (part :: rest) = part ++ rest.flatMap (a :: ·) := by
  induction rest generalizing part with
  | nil => simp [List.intercalate]
  | cons next rest ih =>
    rw [List.intercalate_cons_cons, ih, List.append_assoc, List.flatMap_cons, List.singleton_append,
      List.cons_append]

namespace Builder

/-- The builder may be given a value. -/
def TakesValue (e : Expected) : Prop := e = .value ∨ e = .firstItem

/-- The first token of a value starts it, unless the array ends before its first item. -/
theorem foldlM_cons_of_takesValue {e : Expected} (he : TakesValue e) (frames : List Frame)
    {t : Token} (ht : t ≠ .closeArray) (l : List Token) :
    (t :: l).foldlM step { frames, expected := e } = (startValue frames t >>= l.foldlM step) := by
  have hstep : step { frames, expected := e } t = startValue frames t := by
    rcases he with rfl | rfl
    · rfl
    · cases t <;> first | rfl | exact absurd rfl ht
  rw [List.foldlM_cons, hstep]

/-- After an item of an array, the tokens of further items put them into the array. -/
theorem foldlM_items {frames : List Frame} {rest : List Json}
    (h : ∀ j ∈ rest, ∀ frames,
      j.tokens.foldlM step { frames, expected := .value } = place j frames) (items : List Json) :
    ((tokensOfItems rest).flatMap (.comma :: ·)).foldlM step
        { frames := .array items :: frames, expected := .next } =
      some { frames := .array (rest.reverse ++ items) :: frames, expected := .next } := by
  induction rest generalizing items with
  | nil => rfl
  | cons item rest ih =>
    obtain ⟨hitem, hrest⟩ := List.forall_mem_cons.1 h
    rw [tokensOfItems, List.flatMap_cons, List.cons_append, List.foldlM_cons]
    change List.foldlM step { frames := .array items :: frames, expected := .value } _ = _
    rw [List.foldlM_append, hitem, place, Option.bind_eq_bind, Option.bind_some, ih hrest,
      List.reverse_cons, List.append_assoc, List.singleton_append]

/-- The tokens of a member put it into the object, if its name may stand there. -/
theorem foldlM_member {frames : List Frame} {name : Option String} {value : Json}
    (h : ∀ frames, value.tokens.foldlM step { frames, expected := .value } = place value frames)
    {e : Expected} (he : e = .firstName ∨ e = .name) (members : List (Option String × Json)) :
    (.string name :: .colon :: value.tokens).foldlM step
        { frames := .object members :: frames, expected := e } =
      some { frames := .object ((name, value) :: members) :: frames, expected := .next } := by
  have hvalue := h (.member members name :: frames)
  rcases he with rfl | rfl <;> exact hvalue

/-- After a member of an object, the tokens of further members put them into the object. -/
theorem foldlM_members {frames : List Frame} {rest : List (Option String × Json)}
    (h : ∀ m ∈ rest, ∀ frames,
      m.2.tokens.foldlM step { frames, expected := .value } = place m.2 frames)
    (members : List (Option String × Json)) :
    ((tokensOfMembers rest).flatMap (.comma :: ·)).foldlM step
        { frames := .object members :: frames, expected := .next } =
      some { frames := .object (rest.reverse ++ members) :: frames, expected := .next } := by
  induction rest generalizing members with
  | nil => rfl
  | cons m rest ih =>
    obtain ⟨hm, hrest⟩ := List.forall_mem_cons.1 h
    rw [tokensOfMembers, List.flatMap_cons, List.cons_append, List.foldlM_cons]
    change List.foldlM step { frames := .object members :: frames, expected := .name } _ = _
    rw [List.foldlM_append, foldlM_member hm (.inr rfl), Option.bind_eq_bind, Option.bind_some,
      ih hrest, List.reverse_cons, List.append_assoc, List.singleton_append]

/-- Wherever a value may stand, the tokens of a document put the document there. -/
theorem foldlM_tokens (j : Json) {e : Expected} (he : TakesValue e) (frames : List Frame) :
    j.tokens.foldlM step { frames, expected := e } = place j frames := by
  induction j generalizing e frames with
  | null => rw [tokens, foldlM_cons_of_takesValue he _ (by simp)]; exact bind_pure _
  | bool b => rw [tokens, foldlM_cons_of_takesValue he _ (by simp)]; exact bind_pure _
  | number n => rw [tokens, foldlM_cons_of_takesValue he _ (by simp)]; exact bind_pure _
  | string s => rw [tokens, foldlM_cons_of_takesValue he _ (by simp)]; exact bind_pure _
  | unpaired => rw [tokens, foldlM_cons_of_takesValue he _ (by simp)]; exact bind_pure _
  | array items ih =>
    rw [tokens, List.cons_append, foldlM_cons_of_takesValue he _ (by simp)]
    change List.foldlM step { frames := .array [] :: frames, expected := .firstItem } _ = _
    cases items with
    | nil => exact bind_pure (place (.array []) frames)
    | cons item rest =>
      obtain ⟨hitem, hrest⟩ := List.forall_mem_cons.1 ih
      rw [tokensOfItems, intercalate_cons, List.append_assoc, List.foldlM_append,
        hitem (.inr rfl), place, Option.bind_eq_bind, Option.bind_some, List.foldlM_append,
        foldlM_items fun j hj => hrest j hj (.inl rfl)]
      change (place (.array (rest.reverse ++ [item]).reverse) frames >>= pure) = _
      simp
  | object members ih =>
    rw [tokens, List.cons_append, foldlM_cons_of_takesValue he _ (by simp)]
    change List.foldlM step { frames := .object [] :: frames, expected := .firstName } _ = _
    cases members with
    | nil => exact bind_pure (place (.object []) frames)
    | cons m rest =>
      obtain ⟨hm, hrest⟩ := List.forall_mem_cons.1 ih
      rw [tokensOfMembers, intercalate_cons, List.append_assoc, List.foldlM_append,
        foldlM_member (hm (.inl rfl)) (.inl rfl), Option.bind_eq_bind, Option.bind_some,
        List.foldlM_append, foldlM_members fun m hm => hrest m hm (.inl rfl)]
      change (place (.object (rest.reverse ++ [m]).reverse) frames >>= pure) = _
      simp

end Builder

/-- A document is built from its tokens. -/
theorem ofTokens?_tokens (j : Json) : ofTokens? j.tokens = some j := by
  rw [ofTokens?, Builder.foldlM_tokens j (.inl rfl)]
  rfl

end TraceWeave.Json
