import Mathlib.Tactic.Common
import TraceWeave.Value.Operator

/-!
# Values that conform to a type

Promotion is decided twice: expressions get a type from the types of their operands, and operators
compute in the wider kind of the values that they meet.  `Ty.rank?` gives numeric types the rank of
their values, and `Ty.promote_eq_ofRank` says that the two decisions agree.  From it follow
`Value.binary_conforms` and `Value.unary_conforms`: an operator has a value only if it accepts the
types of its operands, and the value conforms to the type of the result.
-/

namespace TraceWeave

/-- The values that a variable, a field or a result of a type may hold.  Bytes and shorts are
carried as 32-bit numbers, and an object is seen as a string or as null. -/
inductive Value.Conforms : Value → Ty → Prop
  | int (n : Int32) : Conforms (.int n) .int
  | byte (n : Int32) : Conforms (.int n) .byte
  | short (n : Int32) : Conforms (.int n) .short
  | char (c : Char) : Conforms (.char c) .char
  | long (n : Int64) : Conforms (.long n) .long
  | float (x : Float32) : Conforms (.float x) .float
  | double (x : Float) : Conforms (.double x) .double
  | bool (b : Bool) : Conforms (.bool b) .boolean
  | refStr (s name : String) : Conforms (.str s) (.ref name)
  | refNull (name : String) : Conforms .null (.ref name)
  | arrayStr (s : String) (element : Ty) : Conforms (.str s) (.array element)
  | arrayNull (element : Ty) : Conforms .null (.array element)

theorem Value.conforms_ty (v : Value) : v.Conforms v.ty := by
  cases v <;> constructor

/-- The zero of a type conforms to it; characters start as a number, and no value is void. -/
theorem Value.conforms_zero {t : Ty} (hchar : t ≠ .char) (hvoid : t ≠ .void) :
    (zero t).Conforms t := by
  cases t with
  | char => exact absurd rfl hchar
  | void => exact absurd rfl hvoid
  | _ => constructor

/-! ## Ranks of types -/

namespace Ty

/-- The rank of the values of a numeric type. -/
def rank? : Ty → Option Nat
  | .int | .byte | .short | .char => some 0
  | .long => some 1
  | .float => some 2
  | .double => some 3
  | .boolean | .void | .ref _ | .array _ => none

/-- The type in which numbers of a rank are computed. -/
def ofRank : Nat → Ty
  | 0 => .int
  | 1 => .long
  | 2 => .float
  | _ => .double

theorem isNumeric_of_rank {t : Ty} {k : Nat} (h : t.rank? = some k) : t.isNumeric := by
  cases t <;> simp_all [rank?, isNumeric, isIntegral]

theorem isIntegral_of_rank {t : Ty} {k : Nat} (h : t.rank? = some k) (hk : k ≤ 1) :
    t.isIntegral := by
  cases t <;> simp_all [rank?, isIntegral] <;> omega

theorem promoteUnary_eq_ofRank {t : Ty} {k : Nat} (h : t.rank? = some k) :
    t.promoteUnary = ofRank k := by
  cases t <;> cases h <;> rfl

/-- The static promotion of two operands is the dynamic one. -/
theorem promote_eq_ofRank {t u : Ty} {j k : Nat} (ht : t.rank? = some j) (hu : u.rank? = some k) :
    t.promote u = ofRank (max j k) := by
  cases t <;> cases ht <;> cases u <;> cases hu <;> rfl

end Ty

namespace Value

variable {l r v : Value} {t u : Ty} {x y : Number}

/-- A value that conforms to a type is a number of its rank, or neither is numeric. -/
theorem Conforms.rank_number? (h : v.Conforms t) : v.number?.map Number.rank = t.rank? := by
  cases h <;> rfl

theorem Conforms.rank (h : v.Conforms t) (hx : v.number? = some x) : t.rank? = some x.rank := by
  rw [← h.rank_number?, hx, Option.map_some]

theorem Conforms.promoteUnary {w : Value} (h : v.Conforms t) (hx : v.number? = some x)
    (hw : w.Conforms (.ofRank x.rank)) : w.Conforms t.promoteUnary := by
  rwa [Ty.promoteUnary_eq_ofRank (h.rank hx)]

theorem Conforms.eq_boolean {b : Bool} (h : Conforms (.bool b) t) : t = .boolean := by
  cases h
  rfl

end Value

/-! ## Operand types -/

/-- The operand types that a binary operator accepts. -/
def BinaryOp.Accepts (op : BinaryOp) (t u : Ty) : Prop :=
  match op with
  | .eq | .ne => True
  | .and | .or | .xor => t = .boolean ∧ u = .boolean ∨ t.isIntegral ∧ u.isIntegral
  | .shl | .shr | .ushr => t.isIntegral ∧ u.isNumeric
  | _ => t.isNumeric ∧ u.isNumeric

/-- The type of the result of a binary operator. -/
def BinaryOp.resultTy (op : BinaryOp) (t u : Ty) : Ty :=
  if op.isRelational then .boolean
  else if op.isThreeWay then .int
  else if op.isShift then t.promoteUnary
  else t.promote u

/-- The operand types that a unary operator accepts. -/
def UnaryOp.Accepts (op : UnaryOp) (t : Ty) : Prop :=
  match op with
  | .not => t = .boolean
  | .neg => t.isNumeric
  | .bitNot => t.isIntegral

/-- The type of the result of a unary operator. -/
def UnaryOp.resultTy (op : UnaryOp) (t : Ty) : Ty :=
  match op with
  | .not => .boolean
  | .neg | .bitNot => t.promoteUnary

/-! ## Operators respect types -/

namespace Value

variable {l r v : Value} {t u : Ty} {op : BinaryOp}

/-- Both operands of an operator on numbers are numbers. -/
theorem numbers_eq_ok {p : Number × Number} (h : numbers op l r = .ok p) :
    l.number? = some p.1 ∧ r.number? = some p.2 := by
  rw [numbers] at h
  split at h
  next x y hx hy =>
    cases h
    exact ⟨hx, hy⟩
  next => cases h

/-- The pair of numbers that an operator on numbers starts from. -/
theorem numbers_bind_eq_ok {α : Type} {f : Number × Number → Except OperatorError α} {a : α}
    (h : numbers op l r >>= f = .ok a) :
    ∃ x y, l.number? = some x ∧ r.number? = some y ∧ f (x, y) = .ok a := by
  cases hn : numbers op l r with
  | error e =>
    rw [hn] at h
    cases h
  | ok p =>
    rw [hn] at h
    exact ⟨p.1, p.2, (numbers_eq_ok hn).1, (numbers_eq_ok hn).2, h⟩

theorem map_eq_ok {α β ε : Type} {f : α → β} {x : Except ε α} {b : β} (h : x.map f = .ok b) :
    ∃ a, x = .ok a ∧ b = f a := by
  cases x with
  | error e => cases h
  | ok a =>
    cases h
    exact ⟨a, rfl, rfl⟩

/-- A comparison other than of equality needs two numbers. -/
theorem relational_eq_ok {b : Bool} (h : relational op l r = .ok b) :
    (∃ x y, l.number? = some x ∧ r.number? = some y) ∨ op = .eq ∨ op = .ne := by
  unfold relational at h
  split at h
  next x y hx hy => exact .inl ⟨x, y, hx, hy⟩
  next =>
    right
    cases op with
    | eq => exact .inl rfl
    | ne => exact .inr rfl
    | _ => cases h

/-- A guarded result is the result if it is not refused. -/
theorem eq_of_guarded {α ε : Type} {c : Prop} [Decidable c] {e : ε} {a b : α}
    (h : (if c then do throw e; return b else return b : Except ε α) = .ok a) : a = b := by
  split at h <;> cases h
  rfl

theorem arithmetic_eq_ok (h : arithmetic op l r = .ok v) :
    ∃ x y, l.number? = some x ∧ r.number? = some y ∧ v.Conforms (.ofRank (max x.rank y.rank)) := by
  obtain ⟨x, y, hx, hy, hv⟩ := numbers_bind_eq_ok h
  refine ⟨x, y, hx, hy, ?_⟩
  dsimp only at hv
  generalize max x.rank y.rank = k at hv ⊢
  match k with
  | 0 =>
    rw [eq_of_guarded hv]
    exact .int _
  | 1 =>
    rw [eq_of_guarded hv]
    exact .long _
  | 2 =>
    cases hv
    exact .float _
  | k + 3 =>
    cases hv
    exact .double _

/-- The operators that work bit by bit are computed on two truth values, or on whole numbers. -/
theorem bitwise_eq_ok (h : bitwise op l r = .ok v) :
    (∃ a b c, l = .bool a ∧ r = .bool b ∧ v = .bool c) ∨
      ∃ x y, l.number? = some x ∧ r.number? = some y ∧ max x.rank y.rank ≤ 1 ∧
        v.Conforms (.ofRank (max x.rank y.rank)) := by
  unfold bitwise at h
  split at h
  next a b =>
    cases h
    exact .inl ⟨a, b, _, rfl, rfl, rfl⟩
  next =>
    obtain ⟨x, y, hx, hy, hv⟩ := numbers_bind_eq_ok h
    refine .inr ⟨x, y, hx, hy, ?_⟩
    dsimp only at hv
    generalize max x.rank y.rank = k at hv ⊢
    match k with
    | 0 =>
      cases hv
      exact ⟨Nat.zero_le 1, .int _⟩
    | 1 =>
      cases hv
      exact ⟨Nat.le_refl 1, .long _⟩
    | k + 2 => cases hv

theorem shift_eq_ok (h : shift op l r = .ok v) :
    ∃ x y, l.number? = some x ∧ r.number? = some y ∧ x.rank ≤ 1 ∧ v.Conforms (.ofRank x.rank) := by
  obtain ⟨x, y, hx, hy, hv⟩ := numbers_bind_eq_ok h
  refine ⟨x, y, hx, hy, ?_⟩
  cases x with
  | int a =>
    cases hv
    exact ⟨Nat.zero_le 1, .int _⟩
  | long a =>
    cases hv
    exact ⟨Nat.le_refl 1, .long _⟩
  | float a => cases hv
  | double a => cases hv

theorem threeWay_eq_ok (h : threeWay op l r = .ok v) :
    ∃ x y, l.number? = some x ∧ r.number? = some y ∧ v.Conforms .int := by
  obtain ⟨x, y, hx, hy, hv⟩ := numbers_bind_eq_ok h
  cases hv
  exact ⟨x, y, hx, hy, .int _⟩

/-- A binary operator has a value only on operands of types that it accepts, and the value conforms
to the type of the result. -/
theorem binary_conforms (hl : l.Conforms t) (hr : r.Conforms u) (h : binary op l r = .ok v) :
    op.Accepts t u ∧ v.Conforms (op.resultTy t u) := by
  have numeric {x y} (hx : l.number? = some x) (hy : r.number? = some y) :
      t.isNumeric ∧ u.isNumeric :=
    ⟨Ty.isNumeric_of_rank (hl.rank hx), Ty.isNumeric_of_rank (hr.rank hy)⟩
  have promote {x y} (hx : l.number? = some x) (hy : r.number? = some y)
      (hv : v.Conforms (.ofRank (max x.rank y.rank))) : v.Conforms (t.promote u) := by
    rwa [Ty.promote_eq_ofRank (hl.rank hx) (hr.rank hy)]
  cases op with
  | lt | le | gt | ge =>
    obtain ⟨b, hb, rfl⟩ := map_eq_ok h
    obtain ⟨x, y, hx, hy⟩ | hop | hop := relational_eq_ok hb
    · exact ⟨numeric hx hy, .bool b⟩
    · cases hop
    · cases hop
  | eq | ne =>
    obtain ⟨b, -, rfl⟩ := map_eq_ok h
    exact ⟨trivial, .bool b⟩
  | add | sub | mul | div | rem =>
    obtain ⟨x, y, hx, hy, hv⟩ := arithmetic_eq_ok h
    exact ⟨numeric hx hy, promote hx hy hv⟩
  | and | or | xor =>
    obtain ⟨a, b, c, rfl, rfl, rfl⟩ | ⟨x, y, hx, hy, hrank, hv⟩ := bitwise_eq_ok h
    · cases hl.eq_boolean
      cases hr.eq_boolean
      exact ⟨.inl ⟨rfl, rfl⟩, .bool c⟩
    · have hleft := Ty.isIntegral_of_rank (hl.rank hx) (Nat.max_le.1 hrank).1
      have hright := Ty.isIntegral_of_rank (hr.rank hy) (Nat.max_le.1 hrank).2
      exact ⟨.inr ⟨hleft, hright⟩, promote hx hy hv⟩
  | shl | shr | ushr =>
    obtain ⟨x, y, hx, hy, hrank, hv⟩ := shift_eq_ok h
    have hleft := Ty.isIntegral_of_rank (hl.rank hx) hrank
    exact ⟨⟨hleft, (numeric hx hy).2⟩, hl.promoteUnary hx hv⟩
  | cmp | cmpl | cmpg =>
    obtain ⟨x, y, hx, hy, hv⟩ := threeWay_eq_ok h
    exact ⟨numeric hx hy, hv⟩

theorem neg_eq_ok (h : unary .neg r = .ok v) :
    ∃ x, r.number? = some x ∧ v.Conforms (.ofRank x.rank) := by
  cases r with
  | int n | char n =>
    cases h
    exact ⟨_, rfl, .int _⟩
  | long n =>
    cases h
    exact ⟨_, rfl, .long _⟩
  | float x =>
    cases h
    exact ⟨_, rfl, .float _⟩
  | double x =>
    cases h
    exact ⟨_, rfl, .double _⟩
  | _ => cases h

theorem bitNot_eq_ok (h : unary .bitNot r = .ok v) :
    ∃ x, r.number? = some x ∧ x.rank ≤ 1 ∧ v.Conforms (.ofRank x.rank) := by
  cases r with
  | int n | char n =>
    cases h
    exact ⟨_, rfl, Nat.zero_le 1, .int _⟩
  | long n =>
    cases h
    exact ⟨_, rfl, Nat.le_refl 1, .long _⟩
  | _ => cases h

/-- A unary operator has a value only on an operand of a type that it accepts, and the value
conforms to the type of the result. -/
theorem unary_conforms {op : UnaryOp} (hr : r.Conforms t) (h : unary op r = .ok v) :
    op.Accepts t ∧ v.Conforms (op.resultTy t) := by
  cases op with
  | not =>
    cases r with
    | bool b =>
      cases h
      exact ⟨hr.eq_boolean, .bool _⟩
    | _ => cases h
  | neg =>
    obtain ⟨x, hx, hv⟩ := neg_eq_ok h
    exact ⟨Ty.isNumeric_of_rank (hr.rank hx), hr.promoteUnary hx hv⟩
  | bitNot =>
    obtain ⟨x, hx, hrank, hv⟩ := bitNot_eq_ok h
    exact ⟨Ty.isIntegral_of_rank (hr.rank hx) hrank, hr.promoteUnary hx hv⟩

end Value

end TraceWeave
