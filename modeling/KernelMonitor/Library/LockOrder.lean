import Mathlib

/-! # Locks taken in one order

If every thread that waits for a lock holds only smaller ones, the threads that hold
locks do not all wait for each other.
-/

namespace KernelMonitor.Library

variable {Thread Lock : Type*}

/-- A thread waits for a lock that somebody holds. -/
def Blocked (holds : Thread → Lock → Prop) (wants : Thread → Option Lock) (i : Thread) : Prop :=
  ∃ lock, wants i = some lock ∧ ∃ j, holds j lock

/-- Where a lock is waited for, some thread holds one and can go on. -/
theorem exists_unblocked [Finite Thread] [LinearOrder Lock] {holds : Thread → Lock → Prop}
    {wants : Thread → Option Lock}
    (ordered : ∀ i lock held, wants i = some lock → holds i held → held < lock)
    {i : Thread} (blocked : Blocked holds wants i) :
    ∃ j lock, holds j lock ∧ ¬ Blocked holds wants j := by
  let waited : Set Lock := { lock | ∃ i, wants i = some lock ∧ ∃ j, holds j lock }
  have finite : waited.Finite := by
    have wanted : (Set.range wants).Finite := Set.finite_range wants
    refine (wanted.preimage (Option.some_injective Lock).injOn).subset ?_
    rintro lock ⟨i, wants, _⟩
    exact ⟨i, wants⟩
  obtain ⟨lock, wants, held⟩ := blocked
  obtain ⟨last, ⟨_, _, j, holds⟩, greatest⟩ := finite.exists_maximal ⟨lock, i, wants, held⟩
  refine ⟨j, last, holds, ?_⟩
  rintro ⟨next, asks, taken⟩
  have larger := ordered j next last asks holds
  exact absurd (greatest ⟨j, asks, taken⟩ larger.le) (not_le.mpr larger)

end KernelMonitor.Library
