import Mathlib

/-! # Output up to a limit

Items are put out in order until a number of them is reached; what comes after that is
dropped. Two such outputs one after the other are the output of both.
-/

namespace KernelMonitor.Library

variable {β : Type*}

/-- The output goes on with as many of the items as there is room for. -/
def Fills (limit : Nat) (before after items : List β) : Prop :=
  after = before ++ items.take (limit - before.length)

namespace Fills

variable {limit : Nat} {before middle after items more : List β}

theorem nothing (limit : Nat) (before : List β) : Fills limit before before [] := by
  simp [Fills]

theorem full (noRoom : limit ≤ before.length) (items : List β) :
    Fills limit before before items := by
  simp [Fills, Nat.sub_eq_zero_of_le noRoom]

theorem one (room : before.length < limit) (item : β) :
    Fills limit before (before ++ [item]) [item] := by
  obtain ⟨left, some⟩ : ∃ left, limit - before.length = left + 1 :=
    ⟨limit - before.length - 1, by omega⟩
  simp [Fills, some]

theorem trans (first : Fills limit before middle items) (second : Fills limit middle after more) :
    Fills limit before after (items ++ more) := by
  unfold Fills at *
  have left : limit - middle.length = limit - before.length - items.length := by
    rw [first, List.length_append, List.length_take]
    omega
  rw [second, left, first, List.append_assoc, ← List.take_append]

theorem length_le (fills : Fills limit before after items) : before.length ≤ after.length := by
  rw [fills, List.length_append]
  omega

end Fills

end KernelMonitor.Library
