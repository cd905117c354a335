/-!
# Tables

A table gives values to keys.  It is seen through `get?`: a later value for a key takes the place of
the one before.
-/

namespace TraceWeave

/-- Values by key. -/
structure Table (κ α : Type) where
  /-- The keys with their values. -/
  entries : List (κ × α) := []

namespace Table

variable {κ α : Type} [DecidableEq κ]

instance : EmptyCollection (Table κ α) := ⟨{}⟩

/-- The value of a key. -/
def get? (t : Table κ α) (k : κ) : Option α := (t.entries.find? fun e => e.1 = k).map (·.2)

/-- Gives a key a value in a list of entries: in place, or at the end if the key is new. -/
def insertEntry (k : κ) (a : α) : List (κ × α) → List (κ × α)
  | [] => [(k, a)]
  | e :: rest => if e.1 = k then (k, a) :: rest else e :: insertEntry k a rest

/-- The table in which a key has a value. -/
def insert (t : Table κ α) (k : κ) (a : α) : Table κ α := ⟨insertEntry k a t.entries⟩

/-- The table of keys and values, where the last value of a key counts. -/
def ofList (l : List (κ × α)) : Table κ α := l.foldl (fun t e => t.insert e.1 e.2) ∅

theorem find?_insertEntry (k l : κ) (a : α) (entries : List (κ × α)) :
    ((insertEntry k a entries).find? fun e => e.1 = l).map (·.2) =
      if k = l then some a else (entries.find? fun e => e.1 = l).map (·.2) := by
  induction entries with
  | nil => by_cases h : k = l <;> simp [insertEntry, h]
  | cons e rest ih =>
    by_cases he : e.1 = k
    · by_cases h : k = l <;> simp [insertEntry, he, h]
    · by_cases h : e.1 = l
      · have hk : k ≠ l := fun hk => he (h.trans hk.symm)
        simp [insertEntry, h, hk, Ne.symm hk]
      · simp [insertEntry, he, h, ih]

@[simp, grind =] theorem get?_empty (k : κ) : (∅ : Table κ α).get? k = none := rfl

@[grind =] theorem get?_insert (t : Table κ α) (k l : κ) (a : α) :
    (t.insert k a).get? l = if k = l then some a else t.get? l :=
  find?_insertEntry k l a t.entries

end Table

end TraceWeave
