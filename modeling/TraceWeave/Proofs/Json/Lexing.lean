import TraceWeave.Json.Printer
import TraceWeave.Proofs.Json.Building
import TraceWeave.Proofs.Numeral.WellFormed

/-!
# Cutting printed documents

What the tokenizer finds in a document that was printed.  `Lexes` is tokenizing without its bound on
the rounds, and `Spells l ts` says that a text is cut into given tokens wherever it stands in a
document: it is enough that a comma, a line feed or the end of the text follows, so that a number
ends where it was meant to.  Every part of the indented form spells its tokens (`spells_indented`),
and so a printed document is read back (`parse?_pretty`) if its numerals are well-formed.
-/

namespace TraceWeave

/-! ## Numerals -/

namespace Numeral

/-- The point and the digits after it. -/
def fractionText (n : Numeral) : List Char := if n.fraction.isEmpty then [] else '.' :: n.fraction

/-- The exponent as it is written. -/
def exponentText (n : Numeral) : List Char :=
  match n.exponent with
  | none => []
  | some (sign, digits) => 'e' :: sign.text ++ digits

theorem text_eq (n : Numeral) :
    n.text =
      (if n.negative then ['-'] else []) ++ (n.whole ++ (n.fractionText ++ n.exponentText)) := by
  rw [text, List.append_assoc, List.append_assoc]
  rfl

end Numeral

namespace Json

/-- The text goes on with a comma or on another line, or it ends. -/
def Delimited (l : List Char) : Prop := ∀ c ∈ l.head?, c = ',' ∨ c = '\n'

theorem takeWhile_isDigit_append {digits l : List Char} (hdigits : ∀ c ∈ digits, c.isDigit = true)
    (hl : ∀ c ∈ l.head?, c.isDigit = false) :
    (digits ++ l).takeWhile Char.isDigit = digits ∧ (digits ++ l).dropWhile Char.isDigit = l := by
  rw [List.takeWhile_append_of_pos hdigits, List.dropWhile_append_of_pos hdigits]
  cases l with
  | nil => simp
  | cons c l => simp [hl c (by simp)]

/-- A digit is neither of the signs, so an exponent may begin with it. -/
theorem readExponent_of_isDigit {d : Char} (hd : d.isDigit = true) (l : List Char) :
    readExponent ('e' :: d :: l) =
      some (some (.absent, (d :: l).takeWhile Char.isDigit), (d :: l).dropWhile Char.isDigit) := by
  have hempty : ((d :: l).takeWhile Char.isDigit).isEmpty = false := by simp [hd]
  simp only [readExponent]
  rw [if_pos (by decide)]
  split
  · next heq => cases heq; cases hd
  · next heq => cases heq; cases hd
  · exact if_neg (by simp [hempty])

/-- A digit begins no other token than a number. -/
theorem readToken_of_isDigit {c : Char} (hc : c.isDigit = true) (l : List Char) :
    readToken (c :: l) = (readUnsigned false (c :: l)).map fun r => (.number r.1, r.2) := by
  unfold readToken
  split
  all_goals first | rfl | (next heq => cases heq; cases hc)

section Numerals

variable {n : Numeral} {rest : List Char} (hrest : Delimited rest)

include hrest

theorem Delimited.isDigit_head? : ∀ c ∈ rest.head?, c.isDigit = false := by
  intro c hc
  rcases hrest c hc with rfl | rfl <;> rfl

theorem readExponent_append (h : n.WellFormed) :
    readExponent (n.exponentText ++ rest) = some (n.exponent, rest) := by
  cases he : n.exponent with
  | none =>
    rw [Numeral.exponentText, he, List.nil_append]
    cases rest with
    | nil => rfl
    | cons c rest => rcases hrest c rfl with rfl | rfl <;> rfl
  | some e =>
    obtain ⟨sign, digits⟩ := e
    obtain ⟨hne, hdigits⟩ := h.exponent_digits _ he
    obtain ⟨htake, hdrop⟩ := takeWhile_isDigit_append hdigits hrest.isDigit_head?
    have hempty : digits.isEmpty = false := by simpa using hne
    rw [Numeral.exponentText, he]
    cases sign with
    | absent =>
      obtain ⟨d, digits, rfl⟩ := List.exists_cons_of_ne_nil hne
      change readExponent ('e' :: d :: (digits ++ rest)) = _
      rw [readExponent_of_isDigit (hdigits d List.mem_cons_self)]
      exact congrArg some (Prod.ext (congrArg (fun l => some (_, l)) htake) hdrop)
    | plus => simp [readExponent, ExponentSign.text, htake, hdrop, hempty]
    | minus => simp [readExponent, ExponentSign.text, htake, hdrop, hempty]

theorem head?_exponentText :
    ∀ c ∈ (n.exponentText ++ rest).head?, c ≠ '.' ∧ c.isDigit = false := by
  intro c hc
  cases he : n.exponent with
  | none =>
    rw [Numeral.exponentText, he, List.nil_append] at hc
    rcases hrest c hc with rfl | rfl <;> decide
  | some e =>
    rw [Numeral.exponentText, he] at hc
    cases hc
    decide

theorem readFraction_append (h : n.WellFormed) :
    readFraction (n.fractionText ++ (n.exponentText ++ rest)) =
      some (n.fraction, n.exponentText ++ rest) := by
  have hhead := head?_exponentText hrest (n := n)
  unfold Numeral.fractionText
  split
  · next hempty =>
    rw [List.nil_append, List.isEmpty_iff.1 hempty]
    unfold readFraction
    split
    · next heq => exact absurd rfl (hhead '.' (by rw [heq]; rfl)).1
    · rfl
  · next hempty =>
    obtain ⟨htake, hdrop⟩ := takeWhile_isDigit_append h.fraction_digits fun c hc => (hhead c hc).2
    simp [readFraction, htake, hdrop, hempty]

theorem readUnsigned_append (h : n.WellFormed) :
    readUnsigned n.negative (n.whole ++ (n.fractionText ++ (n.exponentText ++ rest))) =
      some (n, rest) := by
  have hhead : ∀ c ∈ (n.fractionText ++ (n.exponentText ++ rest)).head?, c.isDigit = false := by
    unfold Numeral.fractionText
    split
    · exact fun c hc => (head?_exponentText hrest c hc).2
    · intro c hc
      cases hc
      rfl
  obtain ⟨htake, hdrop⟩ := takeWhile_isDigit_append h.whole_digits hhead
  have hallowed :
      (n.whole.isEmpty || (1 < n.whole.length && n.whole.head? == some '0')) = false := by
    have hne := h.whole_ne_nil
    rcases h.whole_leading with hone | hzero
    · simp [hne, hone]
    · simp [hne, hzero]
  simp only [readUnsigned, htake, hdrop, hallowed, readFraction_append hrest h, Bool.false_eq_true,
    if_false, Option.bind_eq_bind, Option.bind_some, readExponent_append hrest h]
  rfl

theorem readToken_numeral (h : n.WellFormed) :
    readToken (n.text ++ rest) = some (.number n, rest) := by
  have hread := readUnsigned_append hrest h
  rw [Numeral.text_eq, List.append_assoc, List.append_assoc, List.append_assoc]
  cases hsign : n.negative with
  | true =>
    rw [hsign] at hread
    rw [if_pos rfl, List.singleton_append]
    change (readUnsigned true _).map _ = _
    rw [hread]
    rfl
  | false =>
    rw [hsign] at hread
    obtain ⟨c, l, hl⟩ := List.exists_cons_of_ne_nil h.whole_ne_nil
    have hc := h.whole_digits c (by simp [hl])
    change readToken (n.whole ++ _) = _
    rw [hl, List.cons_append] at hread ⊢
    rw [readToken_of_isDigit hc, hread]
    rfl

end Numerals

/-! ## Strings -/

theorem hexValue?_hexDigit : ∀ n < 16, hexValue? (hexDigit n) = some n := by decide

/-- Every character is read back from its written form. -/
theorem readString_escape (c : Char) (before rest : List Char) :
    readString { chars := some before } (escape c ++ rest) =
      readString { chars := some (c :: before) } rest := by
  unfold escape
  split_ifs with h1 h2 h3 h4 h5 h6 h7 h8
  · subst h1; rfl
  · subst h2; rfl
  · subst h3; rfl
  · subst h4; rfl
  · subst h5; rfl
  · subst h6; rfl
  · subst h7; rfl
  · have hc : c.toNat < 32 := h8
    have hzero : hexValue? '0' = some 0 := rfl
    have hquad : hexQuad? '0' '0' (hexDigit (c.toNat / 16)) (hexDigit (c.toNat % 16)) =
        some c.toNat := by
      rw [hexQuad?, hzero, hexValue?_hexDigit _ (by omega), hexValue?_hexDigit _ (by omega)]
      exact congrArg some (by omega)
    have hpush : ({ chars := some before } : Draft).pushUnit c.toNat =
        { chars := some (c :: before) } := by
      have hhigh : isHighSurrogate c.toNat = false := by simp [isHighSurrogate]; omega
      have hlow : isLowSurrogate c.toNat = false := by simp [isLowSurrogate]; omega
      simp [Draft.pushUnit, hhigh, hlow, Draft.push]
    simp only [List.cons_append, List.nil_append, readString, hquad, hpush]
  · rw [List.singleton_append, readString, if_neg (by simp [h8, h2])]
    · rfl
    all_goals simp [h1, h2]

theorem readString_flatMap_escape (l before rest : List Char) :
    readString { chars := some before } (l.flatMap escape ++ '"' :: rest) =
      some (some (String.ofList (before.reverse ++ l)), rest) := by
  induction l generalizing before with
  | nil =>
    rw [List.flatMap_nil, List.nil_append, readString, List.append_nil]
    rfl
  | cons c l ih =>
    rw [List.flatMap_cons, List.append_assoc, readString_escape, ih, List.reverse_cons,
      List.append_assoc, List.singleton_append]

/-- A member name is read back, also one that denotes no text. -/
theorem readToken_writeName (name : Option String) (rest : List Char) :
    readToken (writeName name ++ rest) = some (.string name, rest) := by
  cases name with
  | none => rfl
  | some s =>
    have hread := readString_flatMap_escape s.toList [] rest
    rw [List.reverse_nil, List.nil_append, String.ofList_toList] at hread
    rw [writeName, writeString, List.append_assoc, List.singleton_append, List.cons_append]
    change (readString {} _).map _ = _
    rw [hread]
    rfl

/-! ## Documents -/

/-- A text is cut into tokens. -/
inductive Lexes : List Char → List Token → Prop where
  /-- The end of the text. -/
  | nil : Lexes [] []
  /-- Blank space before a token. -/
  | space {c : Char} {l : List Char} {ts : List Token} (hc : isSpace c = true) (h : Lexes l ts) :
      Lexes (c :: l) ts
  /-- A token, which takes at least one character. -/
  | token {c : Char} {l rest : List Char} {t : Token} {ts : List Token} (hc : isSpace c = false)
      (ht : readToken (c :: l) = some (t, rest)) (hrest : rest.length ≤ l.length)
      (h : Lexes rest ts) : Lexes (c :: l) (t :: ts)

/-- As many rounds as the text has characters are enough to cut it. -/
theorem Lexes.tokensFrom_eq {l : List Char} {ts : List Token} (h : Lexes l ts) (done : List Token)
    {fuel : Nat} (hfuel : l.length ≤ fuel) :
    tokensFrom done fuel l = some (done.reverse ++ ts) := by
  induction h generalizing done fuel with
  | nil => rw [tokensFrom, List.append_nil]
  | space hc _ ih =>
    cases fuel with
    | zero => cases hfuel
    | succ fuel =>
      rw [tokensFrom, if_pos hc, ih done (Nat.le_of_succ_le_succ hfuel)]
  | token hc ht hrest _ ih =>
    cases fuel with
    | zero => cases hfuel
    | succ fuel =>
      rw [tokensFrom, if_neg (by simp [hc]), ht]
      simp only
      rw [ih _ (Nat.le_trans hrest (Nat.le_of_succ_le_succ hfuel)), List.reverse_cons,
        List.append_assoc, List.singleton_append]

theorem Lexes.lineStart {l : List Char} {ts : List Token} (h : Lexes l ts) (level : Nat) :
    Lexes (lineStart level ++ l) ts := by
  have hblanks : ∀ n, Lexes (List.replicate n ' ' ++ l) ts := fun n => by
    induction n with
    | zero => exact h
    | succ n ih => exact .space rfl ih
  exact .space rfl (hblanks _)

/-- Wherever it stands in a document, a text is cut into these tokens. -/
def Spells (l : List Char) (ts : List Token) : Prop :=
  ∀ rest more, Delimited rest → Lexes rest more → Lexes (l ++ rest) (ts ++ more)

namespace Spells

/-- A text spells a token that is read from its start. -/
theorem token {c : Char} {l : List Char} {t : Token} (hc : isSpace c = false)
    (ht : ∀ rest, Delimited rest → readToken (c :: l ++ rest) = some (t, rest)) :
    Spells (c :: l) [t] := by
  intro rest more hrest hmore
  exact .token hc (ht rest hrest) (by simp) hmore

theorem numeral {n : Numeral} (h : n.WellFormed) : Spells n.text [.number n] := by
  have hread : ∀ rest, Delimited rest → readToken (n.text ++ rest) = some (.number n, rest) :=
    fun rest hrest => readToken_numeral hrest h
  obtain ⟨c, l, hl⟩ := List.exists_cons_of_ne_nil h.whole_ne_nil
  have hdigit := h.whole_digits c (by simp [hl])
  have hc : isSpace c = false := by
    refine Bool.eq_false_iff.2 fun hspace => ?_
    simp only [isSpace, Bool.or_eq_true, beq_iff_eq] at hspace
    rcases hspace with ((rfl | rfl) | rfl) | rfl <;> cases hdigit
  rw [Numeral.text_eq, hl] at hread ⊢
  cases hsign : n.negative with
  | true =>
    rw [hsign] at hread
    exact .token rfl hread
  | false =>
    rw [hsign] at hread
    exact .token hc hread

/-- A value on a line of its own. -/
theorem onLine {l : List Char} {ts : List Token} (h : Spells l ts) (level : Nat) :
    Spells (lineStart level ++ l) ts := by
  intro rest more hrest hmore
  rw [List.append_assoc]
  exact (h rest more hrest hmore).lineStart level

/-- A member on a line of its own. -/
theorem member {l : List Char} {ts : List Token} (h : Spells l ts) (level : Nat)
    (name : Option String) :
    Spells (lineStart level ++ writeName name ++ ':' :: ' ' :: l)
      (.string name :: .colon :: ts) := by
  intro rest more hrest hmore
  have hvalue : Lexes (':' :: ' ' :: l ++ rest) (.colon :: ts ++ more) :=
    .token rfl rfl (Nat.le_refl _) (.space rfl (h rest more hrest hmore))
  have hname := readToken_writeName name (':' :: ' ' :: l ++ rest)
  rw [List.append_assoc, List.append_assoc]
  refine .lineStart ?_ level
  cases name with
  | none => exact .token rfl hname (by simp) hvalue
  | some s => exact .token rfl hname (by simp; omega) hvalue

theorem commaSeparated {parts : List (List Char)} {tss : List (List Token)}
    (h : List.Forall₂ Spells parts tss) :
    Spells (commaSeparated parts) ([.comma].intercalate tss) := by
  induction h with
  | nil => exact fun _ _ _ hmore => hmore
  | @cons l ts parts tss hpart hparts ih =>
    intro rest more hrest hmore
    cases hparts with
    | nil =>
      rw [Json.commaSeparated, List.intercalate_singleton, List.intercalate_singleton]
      exact hpart rest more hrest hmore
    | cons hnext hparts =>
      have hcomma : Lexes (',' :: (_ ++ rest)) (.comma :: (_ ++ more)) :=
        .token rfl rfl (Nat.le_refl _) (ih rest more hrest hmore)
      rw [Json.commaSeparated, List.intercalate_cons_cons, List.intercalate_cons_cons,
        List.append_assoc, List.append_assoc, List.append_assoc, List.append_assoc]
      exact hpart _ _ (fun c hc => by cases hc; exact .inl rfl) hcomma

/-- A container whose content begins on a new line, and whose end stands on one. -/
theorem container {l : List Char} {ts : List Token} (h : Spells l ts) (level : Nat)
    {first last : Char} {opening closing : Token} (hfirst : isSpace first = false)
    (hopening : ∀ rest, readToken (first :: rest) = some (opening, rest))
    (hlast : isSpace last = false)
    (hclosing : ∀ rest, readToken (last :: rest) = some (closing, rest)) :
    Spells (first :: l ++ lineStart level ++ [last]) (opening :: ts ++ [closing]) := by
  intro rest more hrest hmore
  have hend : Lexes (lineStart level ++ last :: rest) (closing :: more) :=
    (Lexes.token hlast (hclosing rest) (Nat.le_refl _) hmore).lineStart level
  have hcontent := h _ _ (fun c hc => by cases hc; exact .inr rfl) hend
  simpa using Lexes.token hfirst (hopening _) (Nat.le_refl _) hcontent

theorem indentedItems {level : Nat} {items : List Json}
    (h : ∀ j ∈ items, Spells (indented level j) j.tokens) :
    List.Forall₂ Spells (indentedItems level items) (tokensOfItems items) := by
  induction items with
  | nil => exact .nil
  | cons item rest ih =>
    obtain ⟨hitem, hrest⟩ := List.forall_mem_cons.1 h
    exact .cons (hitem.onLine level) (ih hrest)

theorem indentedMembers {level : Nat} {members : List (Option String × Json)}
    (h : ∀ m ∈ members, Spells (indented level m.2) m.2.tokens) :
    List.Forall₂ Spells (indentedMembers level members) (tokensOfMembers members) := by
  induction members with
  | nil => exact .nil
  | cons m rest ih =>
    obtain ⟨hm, hrest⟩ := List.forall_mem_cons.1 h
    exact .cons (hm.member level m.1) (ih hrest)

end Spells

/-- A document whose numerals are well-formed. -/
inductive WellFormed : Json → Prop where
  /-- The literal `null`. -/
  | null : WellFormed .null
  /-- A truth value. -/
  | bool (b : Bool) : WellFormed (.bool b)
  /-- A number with a well-formed numeral. -/
  | number {n : Numeral} (h : n.WellFormed) : WellFormed (.number n)
  /-- A string. -/
  | string (s : String) : WellFormed (.string s)
  /-- A string with an unpaired surrogate. -/
  | unpaired : WellFormed .unpaired
  /-- An array of well-formed items. -/
  | array {items : List Json} (h : ∀ j ∈ items, WellFormed j) : WellFormed (.array items)
  /-- An object with well-formed values. -/
  | object {members : List (Option String × Json)} (h : ∀ m ∈ members, WellFormed m.2) :
    WellFormed (.object members)

/-- The indented form of a document spells its tokens, at every level. -/
theorem spells_indented {j : Json} (h : j.WellFormed) (level : Nat) :
    Spells (indented level j) j.tokens := by
  induction h generalizing level with
  | null => exact .token rfl fun _ _ => rfl
  | bool b => cases b <;> exact .token rfl fun _ _ => rfl
  | number h => exact .numeral h
  | string s => exact .token rfl fun rest _ => readToken_writeName (some s) rest
  | unpaired => exact .token rfl fun rest _ => readToken_writeName none rest
  | @array items _ ih =>
    have hitems := Spells.indentedItems fun j hj => ih j hj (level + 1)
    cases items with
    | nil => exact fun _ _ _ hmore => .token rfl rfl (by simp) (.token rfl rfl (by simp) hmore)
    | cons item rest =>
      exact (Spells.commaSeparated hitems).container level rfl (fun _ => rfl) rfl fun _ => rfl
  | @object members _ ih =>
    have hmembers := Spells.indentedMembers fun m hm => ih m hm (level + 1)
    cases members with
    | nil => exact fun _ _ _ hmore => .token rfl rfl (by simp) (.token rfl rfl (by simp) hmore)
    | cons m rest =>
      exact (Spells.commaSeparated hmembers).container level rfl (fun _ => rfl) rfl fun _ => rfl

/-- A printed document is read back if its numerals are well-formed. -/
theorem parse?_pretty {j : Json} (h : j.WellFormed) : parse? j.pretty = some j := by
  have hlexes := spells_indented h 0 [] [] (fun c hc => by cases hc) .nil
  rw [List.append_nil, List.append_nil] at hlexes
  have htokens := hlexes.tokensFrom_eq [] (Nat.le_refl _)
  rw [List.reverse_nil, List.nil_append] at htokens
  rw [parse?, pretty, String.toList_ofList, tokens?, htokens]
  exact ofTokens?_tokens j

end Json

end TraceWeave
