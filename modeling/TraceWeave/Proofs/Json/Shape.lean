import TraceWeave.Json.Basic

/-!
# The shape of documents

`Json.induction` is the principle that proofs about documents use: at an array the statement holds
for every item, at an object for the value of every member.  `Json.depth` is the number of arrays
and objects that a document nests in one another; a bound on it is a bound on the depth of every
part (`depth_array_le`, `depth_object_le`).
-/

namespace TraceWeave

namespace Json

/-- Induction on documents, with a hypothesis for every item and for the value of every member. -/
@[induction_eliminator]
theorem induction {motive : Json → Prop}
    (null : motive .null)
    (bool : ∀ b, motive (.bool b))
    (number : ∀ n, motive (.number n))
    (string : ∀ s, motive (.string s))
    (unpaired : motive .unpaired)
    (array : ∀ items, (∀ j ∈ items, motive j) → motive (.array items))
    (object : ∀ members, (∀ m ∈ members, motive m.2) → motive (.object members)) (j : Json) :
    motive j :=
  @Json.rec motive (fun items => ∀ j ∈ items, motive j) (fun members => ∀ m ∈ members, motive m.2)
    (fun m => motive m.2) null bool number string unpaired array object
    (fun _ h => absurd h List.not_mem_nil)
    (fun _ _ hj hrest _ h => (List.mem_cons.1 h).elim (fun heq => heq ▸ hj) (hrest _))
    (fun _ h => absurd h List.not_mem_nil)
    (fun _ _ hm hrest _ h => (List.mem_cons.1 h).elim (fun heq => heq ▸ hm) (hrest _))
    (fun _ _ hj => hj) j

mutual

/-- The greatest number of arrays and objects that are nested in one another. -/
def depth : Json → Nat
  | .array items => depthOfItems items + 1
  | .object members => depthOfMembers members + 1
  | _ => 0

/-- The greatest depth of array items. -/
def depthOfItems : List Json → Nat
  | [] => 0
  | item :: rest => max item.depth (depthOfItems rest)

/-- The greatest depth of the values of members. -/
def depthOfMembers : List (Option String × Json) → Nat
  | [] => 0
  | (_, value) :: rest => max value.depth (depthOfMembers rest)

end

theorem depthOfItems_le {items : List Json} {n : Nat} :
    depthOfItems items ≤ n ↔ ∀ j ∈ items, j.depth ≤ n := by
  induction items with
  | nil => simp [depthOfItems]
  | cons item rest ih => rw [depthOfItems, Nat.max_le, ih, List.forall_mem_cons]

theorem depthOfMembers_le {members : List (Option String × Json)} {n : Nat} :
    depthOfMembers members ≤ n ↔ ∀ m ∈ members, m.2.depth ≤ n := by
  induction members with
  | nil => simp [depthOfMembers]
  | cons m rest ih => rw [depthOfMembers, Nat.max_le, ih, List.forall_mem_cons]

theorem add_one_le_iff_exists {d n : Nat} : d + 1 ≤ n ↔ ∃ k, n = k + 1 ∧ d ≤ k := by
  constructor
  · intro h
    exact ⟨n - 1, by omega, by omega⟩
  · rintro ⟨k, rfl, h⟩
    omega

/-- Opening an array takes one level. -/
theorem depth_array_le {items : List Json} {n : Nat} :
    (Json.array items).depth ≤ n ↔ ∃ k, n = k + 1 ∧ ∀ j ∈ items, j.depth ≤ k := by
  simp only [depth, add_one_le_iff_exists, depthOfItems_le]

/-- Opening an object takes one level. -/
theorem depth_object_le {members : List (Option String × Json)} {n : Nat} :
    (Json.object members).depth ≤ n ↔ ∃ k, n = k + 1 ∧ ∀ m ∈ members, m.2.depth ≤ k := by
  simp only [depth, add_one_le_iff_exists, depthOfMembers_le]

end Json

end TraceWeave
