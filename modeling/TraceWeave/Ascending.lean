/-!
# Ascending lists

Lists in ascending order without repetition, as the sorted form of a set.
-/

namespace TraceWeave

/-- Puts an element into its place in an ascending list, unless it is there. -/
def insertAscending {α : Type} [LT α] [DecidableLT α] [DecidableEq α] (a : α) : List α → List α
  | [] => [a]
  | b :: rest =>
    if a < b then a :: b :: rest else if a = b then b :: rest else b :: insertAscending a rest

/-- The elements of a list in ascending order, each once. -/
def ascending {α : Type} [LT α] [DecidableLT α] [DecidableEq α] (l : List α) : List α :=
  l.foldr insertAscending []

end TraceWeave
