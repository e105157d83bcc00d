/-
Sorting loses nothing.

An item is dropped only when it is neither before nor after one that is there, and in an
order that tells any two items apart that is the same item.  So a sorted list has the
members of the list it was made from.
-/
import SolidityBundler.Sorting
import SolidityBundler.Text.Basic

namespace SolidityBundler

variable {α : Type} {before : α → α → Bool}

private theorem mem_insertBy (hconnex : ∀ x y, before x y = false → before y x = false → x = y)
    {x y : α} {ys : List α} : y ∈ insertBy before x ys ↔ y = x ∨ y ∈ ys := by
  constructor
  · exact eq_or_mem_of_mem_insertBy
  · intro h
    rcases h with rfl | h
    · induction ys with
      | nil => simp [insertBy]
      | cons z zs ih =>
          rw [insertBy]
          by_cases hyz : before y z
          · rw [if_pos hyz]
            exact List.mem_cons_self
          · rw [if_neg hyz]
            by_cases hzy : before z y
            · rw [if_pos hzy]
              exact List.mem_cons_of_mem _ ih
            · rw [if_neg hzy, hconnex y z (by simpa using hyz) (by simpa using hzy)]
              exact List.mem_cons_self
    · exact mem_insertBy_of_mem h

theorem mem_sortBy (hconnex : ∀ x y, before x y = false → before y x = false → x = y)
    {x : α} {xs : List α} : x ∈ sortBy before xs ↔ x ∈ xs := by
  induction xs with
  | nil => simp [sortBy]
  | cons y ys ih =>
      rw [List.mem_cons, ← ih]
      exact mem_insertBy hconnex

theorem mem_sortedDistinct {x : Text} {xs : List Text} : x ∈ sortedDistinct xs ↔ x ∈ xs := by
  refine mem_sortBy fun x y hxy hyx => ?_
  rw [decide_eq_false_iff_not, List.not_lt] at hxy hyx
  exact List.le_antisymm hyx hxy

end SolidityBundler
