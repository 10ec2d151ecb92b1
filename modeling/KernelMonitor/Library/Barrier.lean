import KernelMonitor.Library.ThreadPool

/-! # Barriers

A barrier for all threads of a pool, used again and again. The last to arrive begins a
new round and goes on, and the others go on once they see that the round has changed.
-/

namespace KernelMonitor.Library

/-- How many threads the barrier waits for, how many are there, and how often it has
    opened. -/
structure Barrier where
  parties : ℕ
  arrived : ℕ
  round : ℕ
  deriving DecidableEq, Repr

/-- A thread that has gone through so many times, or waits in a round. -/
inductive BarrierPoint where
  | running (passed : ℕ)
  | parked (round : ℕ)
  deriving DecidableEq, Repr

inductive BarrierLabel where
  | arrive
  | pass
  deriving DecidableEq, Repr

inductive BarrierStep : Barrier → BarrierPoint → BarrierLabel → Barrier → BarrierPoint → Prop where
  | wait {b : Barrier} {passed : ℕ} (early : b.arrived + 1 < b.parties) :
      BarrierStep b (.running passed) .arrive { b with arrived := b.arrived + 1 } (.parked b.round)
  | open {b : Barrier} {passed : ℕ} (last : b.parties ≤ b.arrived + 1) :
      BarrierStep b (.running passed) .arrive { b with arrived := 0, round := b.round + 1 }
        (.running (passed + 1))
  | pass {b : Barrier} {round : ℕ} (opened : b.round ≠ round) :
      BarrierStep b (.parked round) .pass b (.running (round + 1))

/-- The rounds a thread has arrived in. -/
def BarrierPoint.arrivals : BarrierPoint → ℕ
  | .running passed => passed
  | .parked round => round + 1

/-- Waiting in this round. -/
def BarrierPoint.waitsIn (round : ℕ) (point : BarrierPoint) : ℕ :=
  if point = .parked round then 1 else 0

/-- A thread that waits has come in this round or in the one before, and one that does not
    has gone through them all. -/
def BarrierPoint.Fits (round : ℕ) : BarrierPoint → Prop
  | .running passed => passed = round
  | .parked there => there = round ∨ there + 1 = round

section

variable {Thread : Type*} [DecidableEq Thread] [Fintype Thread]

/-- The threads of a pool at a barrier of theirs. -/
def barrierSystem (Thread : Type*) [DecidableEq Thread] [Fintype Thread] :
    LabelledSystem (Pool Thread Barrier BarrierPoint) (Thread × BarrierLabel) :=
  Pool.system ⟨Fintype.card Thread, 0, 0⟩ (fun _ => .running 0) fun _ => BarrierStep

/-- What holds of the threads and the barrier throughout. -/
structure AtBarrier (p : Pool Thread Barrier BarrierPoint) : Prop where
  parties : p.shared.parties = Fintype.card Thread
  room : p.shared.arrived < p.shared.parties
  arrived : p.shared.arrived = p.total (BarrierPoint.waitsIn p.shared.round)
  fits : ∀ i, (p.point i).Fits p.shared.round

omit [DecidableEq Thread] in
theorem atBarrier_start [Nonempty Thread] : AtBarrier
    (⟨⟨Fintype.card Thread, 0, 0⟩, fun _ => .running 0⟩ : Pool Thread Barrier BarrierPoint) where
  parties := rfl
  room := Fintype.card_pos
  arrived := by simp [Pool.total, BarrierPoint.waitsIn]
  fits _ := rfl

/-- Where the last one arrives, all others wait in its round. -/
theorem AtBarrier.all_wait {p : Pool Thread Barrier BarrierPoint} (at_ : AtBarrier p) {i : Thread}
    {passed : ℕ} (there : p.point i = .running passed)
    (last : p.shared.parties ≤ p.shared.arrived + 1) :
    ∀ j ≠ i, p.point j = .parked p.shared.round := by
  intro j other
  by_contra elsewhere
  have mine : BarrierPoint.waitsIn p.shared.round (p.point i) = 0 := by
    simp [BarrierPoint.waitsIn, there]
  have theirs : BarrierPoint.waitsIn p.shared.round (p.point j) = 0 := if_neg elsewhere
  have few : p.total (BarrierPoint.waitsIn p.shared.round) ≤
      ((Finset.univ.erase i).erase j).card := by
    unfold Pool.total
    rw [← Finset.add_sum_erase _ _ (Finset.mem_univ i), mine, Nat.zero_add,
      ← Finset.add_sum_erase _ _ (Finset.mem_erase.mpr ⟨other, Finset.mem_univ j⟩), theirs,
      Nat.zero_add, Finset.card_eq_sum_ones]
    refine Finset.sum_le_sum fun k _ => ?_
    unfold BarrierPoint.waitsIn
    split <;> omega
  rw [Finset.card_erase_of_mem (Finset.mem_erase.mpr ⟨other, Finset.mem_univ j⟩),
    Finset.card_erase_of_mem (Finset.mem_univ i), Finset.card_univ] at few
  have parties := at_.parties
  have arrived := at_.arrived
  have two : 2 ≤ Fintype.card Thread := Fintype.one_lt_card_iff.mpr ⟨j, i, other⟩
  omega

theorem AtBarrier.step {p next : Pool Thread Barrier BarrierPoint}
    {label : Thread × BarrierLabel} (at_ : AtBarrier p)
    (taken : (barrierSystem Thread).Step p label next) : AtBarrier next := by
  obtain ⟨i, label⟩ := label
  obtain ⟨shared, point, step, rfl⟩ := Pool.exists_move taken
  have mine := at_.fits i
  have moved := p.total_move (BarrierPoint.waitsIn p.shared.round) i shared point
  have arrived := at_.arrived
  have all : ∀ passed, p.point i = .running passed → p.shared.parties ≤ p.shared.arrived + 1 →
      ∀ j ≠ i, p.point j = .parked p.shared.round := fun _ => at_.all_wait
  have room := at_.room
  generalize there : p.point i = here at step mine moved
  cases step with
  | @wait passed early =>
      refine ⟨at_.parties, early, ?_, p.forall_move (.inl rfl) fun j _ => at_.fits j⟩
      simp only [BarrierPoint.waitsIn] at moved arrived ⊢
      simp only [Pool.move_shared, if_pos, reduceCtorEq, if_false] at moved ⊢
      omega
  | @«open» passed last =>
      have others := all passed there last
      refine ⟨at_.parties, Nat.zero_lt_of_lt room, ?_, p.forall_move ?_ fun j other => ?_⟩
      · rw [eq_comm, Pool.move_shared, Pool.total_eq_zero]
        refine p.forall_move (P := fun _ point => BarrierPoint.waitsIn _ point = 0) ?_ ?_
        · simp [BarrierPoint.waitsIn]
        · intro j other
          simp [others j other, BarrierPoint.waitsIn]
      · have same : passed = p.shared.round := mine
        simp [BarrierPoint.Fits, same]
      · rw [others j other]
        exact .inr rfl
  | @pass round opened =>
      have same : round + 1 = p.shared.round := mine.resolve_left opened.symm
      refine ⟨at_.parties, room, ?_, p.forall_move same fun j _ => at_.fits j⟩
      simp only [BarrierPoint.waitsIn] at moved arrived ⊢
      simp only [Pool.move_shared, reduceCtorEq, if_false, BarrierPoint.parked.injEq,
        if_neg opened.symm] at moved ⊢
      omega

theorem barrier_kept [Nonempty Thread] {p : Pool Thread Barrier BarrierPoint}
    (reachable : (barrierSystem Thread).Reachable p) : AtBarrier p := by
  refine reachable.invariant ?_ fun _ _ _ taken at_ => at_.step taken
  rintro _ rfl
  exact atBarrier_start

omit [DecidableEq Thread] in
/-- Nobody is through a round before everybody has arrived in it. -/
theorem AtBarrier.together {p : Pool Thread Barrier BarrierPoint} (at_ : AtBarrier p)
    {i : Thread} {passed : ℕ} (through : p.point i = .running passed) (j : Thread) :
    passed ≤ (p.point j).arrivals := by
  have mine := at_.fits i
  have theirs := at_.fits j
  rw [through] at mine
  cases there : p.point j with
  | running more =>
      rw [there] at theirs
      exact (mine.trans theirs.symm).le
  | parked round =>
      rw [there] at theirs
      have mine : passed = p.shared.round := mine
      rcases theirs with same | same <;> simp only [BarrierPoint.arrivals] <;> omega

omit [DecidableEq Thread] in
/-- Not everybody waits. -/
theorem AtBarrier.somebody {p : Pool Thread Barrier BarrierPoint} (at_ : AtBarrier p) :
    ∃ i, p.point i ≠ .parked p.shared.round := by
  by_contra all
  have waits : ∀ i, BarrierPoint.waitsIn p.shared.round (p.point i) = 1 := by
    intro i
    exact if_pos (not_not.mp fun other => all ⟨i, other⟩)
  have arrived := at_.arrived
  have room := at_.room
  simp only [Pool.total, waits, Finset.sum_const, Finset.card_univ, smul_eq_mul, mul_one] at arrived
  rw [arrived, at_.parties] at room
  exact lt_irrefl _ room

end

end KernelMonitor.Library
