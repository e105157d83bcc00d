/-
Sorting without repetition.

Names, paths and aliases are all listed in a fixed order, each once.  `sortBy` inserts
one item after the other into a list that is already in order; an item that is neither
before nor after one already there is the same item and is dropped.
-/
namespace SolidityBundler

variable {α : Type}

/-- Puts `x` at its place in an ordered list, unless it is there already. -/
def insertBy (before : α → α → Bool) (x : α) : List α → List α
  | [] => [x]
  | y :: ys =>
      if before x y then x :: y :: ys
      else if before y x then y :: insertBy before x ys
      else y :: ys

/-- The items in order, each once. -/
def sortBy (before : α → α → Bool) (xs : List α) : List α :=
  xs.foldr (insertBy before) []

/-- The items in increasing order, each once. -/
def sortedDistinct [LT α] [DecidableLT α] (xs : List α) : List α :=
  sortBy (fun x y => decide (x < y)) xs

theorem mem_insertBy_of_mem {before : α → α → Bool} {x y : α} {ys : List α} (h : y ∈ ys) :
    y ∈ insertBy before x ys := by
  induction ys with
  | nil => simp at h
  | cons z zs ih =>
      simp only [insertBy]
      split
      · exact List.mem_cons_of_mem _ h
      · split
        · rcases List.mem_cons.1 h with rfl | h
          · exact List.mem_cons_self
          · exact List.mem_cons_of_mem _ (ih h)
        · exact h

theorem eq_or_mem_of_mem_insertBy {before : α → α → Bool} {x y : α} {ys : List α}
    (h : y ∈ insertBy before x ys) : y = x ∨ y ∈ ys := by
  induction ys with
  | nil => simpa [insertBy] using h
  | cons z zs ih =>
      simp only [insertBy] at h
      split at h
      · simpa using h
      · split at h
        · rcases List.mem_cons.1 h with rfl | h
          · exact .inr List.mem_cons_self
          · exact (ih h).imp id (List.mem_cons_of_mem _)
        · exact .inr h

end SolidityBundler
