import Mathlib

/-! # Stores into an array

A store of several cells at an offset, which has a result only where all of them lie inside
the array.
-/

namespace KernelMonitor.Library

variable {α : Type*}

/-- Puts the items at `offset`, `offset + 1` and so on. -/
def storeAt (cells : List α) (offset : Nat) (items : List α) : Option (List α) :=
  if offset + items.length ≤ cells.length then
    some (cells.take offset ++ items ++ cells.drop (offset + items.length))
  else none

variable {cells items : List α} {offset : Nat}

/-- A store that fits leaves its items behind what was in front of them, and the rest. -/
theorem storeAt_fits (fits : offset + items.length ≤ cells.length) :
    ∃ after, storeAt cells offset items = some after ∧ after.length = cells.length ∧
      after.take (offset + items.length) = cells.take offset ++ items ∧
      ∀ k, offset + items.length ≤ k → after.drop k = cells.drop k := by
  have front : (cells.take offset ++ items).length = offset + items.length := by
    rw [List.length_append, List.length_take]
    omega
  refine ⟨_, if_pos fits, ?_, ?_, ?_⟩
  · rw [List.length_append, front, List.length_drop]
    omega
  · rw [← front, List.take_left]
  · intro k behind
    rw [List.drop_append, List.drop_eq_nil_of_le (by omega), List.nil_append, List.drop_drop, front]
    congr 1
    omega

end KernelMonitor.Library
