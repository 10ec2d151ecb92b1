import KernelMonitor.Library.Barrier
import KernelMonitor.Library.LockOrder

/-! # Threads that take two locks

Model of part 5 of `demo/threadsync.c`: `do_transfer`, for any number of threads and of
locks. A thread whose second lock is taken may wait for it, and a wait may time out at
any time. Threads in a circle all give up, and threads that take their locks in one order
never depend on a timeout.
-/

namespace KernelMonitor

open Library

/-- `struct transfer`, without the names it prints. -/
structure Transfer (Lock : Type*) where
  first : Lock
  second : Lock
  useBarrier : Bool

/-- Who holds each mutex, and `g_both_hold_one`. -/
structure LockTable (Thread Lock : Type*) where
  owner : Lock → Option Thread
  barrier : Barrier

/-- Where `do_transfer` is; `gaveUp` is its `rc == ETIMEDOUT`. -/
inductive TransferPoint where
  | starting
  /-- With the first lock, and at the first barrier if there is one. -/
  | meeting (point : BarrierPoint)
  | asking
  | blocked
  | got
  | parting (gaveUp : Bool) (point : BarrierPoint)
  | done (gaveUp : Bool)
  deriving DecidableEq, Repr

inductive TransferLabel where
  | lockFirst
  | barrier (label : BarrierLabel)
  | ask
  | block
  | lockSecond
  | timeout
  | unlockSecond
  | unlockFirst
  deriving DecidableEq, Repr

inductive TransferStep {Thread Lock : Type*} [DecidableEq Lock] (transfers : Thread → Transfer Lock)
    (i : Thread) : LockTable Thread Lock → TransferPoint → TransferLabel → LockTable Thread Lock →
      TransferPoint → Prop where
  | lockFirst {s : LockTable Thread Lock} (free : s.owner (transfers i).first = none) :
      TransferStep transfers i s .starting .lockFirst
        { s with owner := Function.update s.owner (transfers i).first (some i) }
        (.meeting (.running 0))
  | skip {s : LockTable Thread Lock} (alone : (transfers i).useBarrier = false) :
      TransferStep transfers i s (.meeting (.running 0)) .ask s .asking
  | meet {s : LockTable Thread Lock} {after : Barrier} {point : BarrierPoint}
      (uses : (transfers i).useBarrier = true)
      (step : BarrierStep s.barrier (.running 0) .arrive after point) :
      TransferStep transfers i s (.meeting (.running 0)) (.barrier .arrive)
        { s with barrier := after } (.meeting point)
  | met {s : LockTable Thread Lock} {round : ℕ} {after : Barrier} {point : BarrierPoint}
      (step : BarrierStep s.barrier (.parked round) .pass after point) :
      TransferStep transfers i s (.meeting (.parked round)) (.barrier .pass)
        { s with barrier := after } (.meeting point)
  | ready {s : LockTable Thread Lock} :
      TransferStep transfers i s (.meeting (.running 1)) .ask s .asking
  /-- `pthread_mutex_timedlock` returns at once if it can. -/
  | lockSecond {s : LockTable Thread Lock} {here : TransferPoint}
      (there : here = .asking ∨ here = .blocked) (free : s.owner (transfers i).second = none) :
      TransferStep transfers i s here .lockSecond
        { s with owner := Function.update s.owner (transfers i).second (some i) } .got
  | block {s : LockTable Thread Lock} (held : s.owner (transfers i).second ≠ none) :
      TransferStep transfers i s .asking .block s .blocked
  | timeout {s : LockTable Thread Lock} :
      TransferStep transfers i s .blocked .timeout s (.parting true (.running 1))
  | unlockSecond {s : LockTable Thread Lock} :
      TransferStep transfers i s .got .unlockSecond
        { s with owner := Function.update s.owner (transfers i).second none }
        (.parting false (.running 1))
  | part {s : LockTable Thread Lock} {gaveUp : Bool} {after : Barrier} {point : BarrierPoint}
      (uses : (transfers i).useBarrier = true)
      (step : BarrierStep s.barrier (.running 1) .arrive after point) :
      TransferStep transfers i s (.parting gaveUp (.running 1)) (.barrier .arrive)
        { s with barrier := after } (.parting gaveUp point)
  | parted {s : LockTable Thread Lock} {gaveUp : Bool} {round : ℕ} {after : Barrier}
      {point : BarrierPoint} (step : BarrierStep s.barrier (.parked round) .pass after point) :
      TransferStep transfers i s (.parting gaveUp (.parked round)) (.barrier .pass)
        { s with barrier := after } (.parting gaveUp point)
  | unlockFirst {s : LockTable Thread Lock} {gaveUp : Bool}
      {passed : ℕ} (through : passed = if (transfers i).useBarrier then 2 else 1) :
      TransferStep transfers i s (.parting gaveUp (.running passed)) .unlockFirst
        { s with owner := Function.update s.owner (transfers i).first none } (.done gaveUp)

/-- From `pthread_mutex_lock` to `pthread_mutex_unlock` of the first lock. -/
def TransferPoint.holdsFirst : TransferPoint → Bool
  | .starting | .done _ => false
  | _ => true

section

variable {Thread Lock : Type*} [DecidableEq Thread] [DecidableEq Lock] [Fintype Thread]

abbrev Transfers (Thread Lock : Type*) := Pool Thread (LockTable Thread Lock) TransferPoint

/-- `part_deadlock`, for one group of threads. -/
def transferSystem (transfers : Thread → Transfer Lock) :
    LabelledSystem (Transfers Thread Lock) (Thread × TransferLabel) :=
  Pool.system ⟨fun _ => none, ⟨Fintype.card Thread, 0, 0⟩⟩ (fun _ => .starting)
    (TransferStep transfers)

variable {transfers : Thread → Transfer Lock}

/-- Who holds the locks is told by where the threads are. -/
structure Owned (transfers : Thread → Transfer Lock) (p : Transfers Thread Lock) : Prop where
  first : ∀ i, (p.point i).holdsFirst = true → p.shared.owner (transfers i).first = some i
  second : ∀ i, p.point i = .got → p.shared.owner (transfers i).second = some i ∧
    (transfers i).second ≠ (transfers i).first
  owner : ∀ lock i, p.shared.owner lock = some i →
    lock = (transfers i).first ∧ (p.point i).holdsFirst = true ∨
      lock = (transfers i).second ∧ p.point i = .got

namespace Owned

omit [Fintype Thread]

variable {p : Transfers Thread Lock} (owned : Owned transfers p) {i : Thread} {here : TransferPoint}
  (there : p.point i = here)
include owned there

omit [DecidableEq Lock] in
/-- A step that locks and unlocks nothing. -/
theorem moved {shared : LockTable Thread Lock} {point : TransferPoint}
    (same : shared.owner = p.shared.owner) (holds : point.holdsFirst = here.holdsFirst)
    (before : here ≠ .got) (after : point ≠ .got) : Owned transfers (p.move i shared point) := by
  refine ⟨?_, ?_, fun lock j held => ?_⟩
  · refine Pool.forall_move (P := fun j point => TransferPoint.holdsFirst point = true →
      shared.owner (transfers j).first = some j) ?_ ?_ <;> rw [same]
    · intro mine
      exact owned.first i (there ▸ holds ▸ mine)
    · exact fun j _ => owned.first j
  · refine Pool.forall_move (P := fun j (point : TransferPoint) => point = .got →
      shared.owner (transfers j).second = some j ∧ (transfers j).second ≠ (transfers j).first)
      (fun mine => absurd mine after) ?_
    rw [same]
    exact fun j _ => owned.second j
  · rw [p.move_shared, same] at held
    by_cases own : j = i
    · subst own
      rw [p.move_self, holds]
      have old := owned.owner lock j held
      rw [there] at old
      exact .inl (old.resolve_right fun got => before got.2)
    · rw [p.move_other own]
      exact owned.owner lock j held

/-- A thread takes a free lock. -/
theorem locks {lock : Lock} {point : TransferPoint} (free : p.shared.owner lock = none)
    (kept : here.holdsFirst = true → point.holdsFirst = true) (none : here ≠ .got)
    (first : point.holdsFirst = true → here.holdsFirst = false → lock = (transfers i).first)
    (second : point = .got → lock = (transfers i).second ∧ here.holdsFirst = true)
    (mine : lock = (transfers i).first ∧ point.holdsFirst = true ∨
      lock = (transfers i).second ∧ point = .got) :
    Owned transfers (p.move i { p.shared with owner := Function.update p.shared.owner lock (some i) }
      point) := by
  have others : ∀ other j, p.shared.owner other = some j →
      Function.update p.shared.owner lock (some i) other = some j := by
    intro other j held
    rw [Function.update_of_ne ?_, held]
    rintro rfl
    rw [free] at held
    cases held
  refine ⟨?_, ?_, fun other j held => ?_⟩
  · refine Pool.forall_move (P := fun j point => TransferPoint.holdsFirst point = true →
      Function.update p.shared.owner lock (some i) (transfers j).first = some j) ?_
      fun j _ holds => others _ j (owned.first j holds)
    intro holds
    cases before : here.holdsFirst with
    | true => exact others _ i (owned.first i (there ▸ before))
    | false =>
        rw [← first holds before]
        exact Function.update_self _ _ _
  · refine Pool.forall_move (P := fun j (point : TransferPoint) => point = .got →
      Function.update p.shared.owner lock (some i) (transfers j).second = some j ∧
        (transfers j).second ≠ (transfers j).first) ?_
      fun j _ got => ⟨others _ j (owned.second j got).1, (owned.second j got).2⟩
    intro got
    obtain ⟨same, before⟩ := second got
    have held := owned.first i (there ▸ before)
    rw [← same]
    refine ⟨Function.update_self _ _ _, ?_⟩
    rintro rfl
    rw [free] at held
    cases held
  · by_cases this : other = lock
    · subst this
      simp only [Pool.move_shared, Function.update_self, Option.some.injEq] at held
      subst held
      rw [p.move_self]
      exact mine
    · simp only [Pool.move_shared, Function.update_of_ne this] at held
      by_cases own : j = i
      · subst own
        have old := owned.owner other j held
        rw [there] at old
        rw [p.move_self]
        obtain ⟨same, before⟩ := old.resolve_right fun got => none got.2
        exact .inl ⟨same, kept before⟩
      · rw [p.move_other own]
        exact owned.owner other j held

/-- A thread gives a lock back. -/
theorem unlocks {lock : Lock} {point : TransferPoint} (mine : p.shared.owner lock = some i)
    (first : point.holdsFirst = true → lock ≠ (transfers i).first ∧ here.holdsFirst = true)
    (after : point ≠ .got)
    (kept : lock ≠ (transfers i).first → point.holdsFirst = here.holdsFirst)
    (only : here = .got → lock = (transfers i).second) :
    Owned transfers (p.move i { p.shared with owner := Function.update p.shared.owner lock none }
      point) := by
  have others : ∀ other j, j ≠ i → p.shared.owner other = some j →
      Function.update p.shared.owner lock none other = some j := by
    intro other j different held
    rw [Function.update_of_ne ?_, held]
    rintro rfl
    rw [mine] at held
    exact different (Option.some.inj held).symm
  refine ⟨?_, ?_, fun other j held => ?_⟩
  · refine Pool.forall_move (P := fun j point => TransferPoint.holdsFirst point = true →
      Function.update p.shared.owner lock none (transfers j).first = some j) ?_
      fun j different holds => others _ j different (owned.first j holds)
    intro holds
    obtain ⟨apart, before⟩ := first holds
    rw [Function.update_of_ne apart.symm]
    exact owned.first i (there ▸ before)
  · exact Pool.forall_move (P := fun j (point : TransferPoint) => point = .got →
      Function.update p.shared.owner lock none (transfers j).second = some j ∧
        (transfers j).second ≠ (transfers j).first) (fun got => absurd got after)
      fun j different got => ⟨others _ j different (owned.second j got).1, (owned.second j got).2⟩
  · have apart : other ≠ lock := by
      rintro rfl
      simp only [Pool.move_shared, Function.update_self] at held
      cases held
    simp only [Pool.move_shared, Function.update_of_ne apart] at held
    by_cases own : j = i
    · subst own
      have old := owned.owner other j held
      rw [there] at old
      rw [p.move_self]
      rcases old with ⟨same, before⟩ | ⟨same, got⟩
      · exact .inl ⟨same, (kept (same ▸ apart.symm)).trans before⟩
      · exact absurd (same.trans (only got).symm) apart
    · rw [p.move_other own]
      exact owned.owner other j held

end Owned

theorem Owned.step {p next : Transfers Thread Lock} {label : Thread × TransferLabel}
    (owned : Owned transfers p) (taken : (transferSystem transfers).Step p label next) :
    Owned transfers next := by
  obtain ⟨i, label⟩ := label
  obtain ⟨shared, point, step, rfl⟩ := Pool.exists_move taken
  generalize there : p.point i = here at step
  cases step with
  | skip | meet | met | ready | block | timeout | part | parted =>
      exact owned.moved there rfl rfl (by simp) (by simp)
  | lockFirst free =>
      exact owned.locks there free (by simp [TransferPoint.holdsFirst]) (by simp) (fun _ _ => rfl)
        (by simp) (.inl ⟨rfl, rfl⟩)
  | lockSecond asks free =>
      have holds : here.holdsFirst = true := by
        rcases asks with rfl | rfl <;> rfl
      have none : here ≠ .got := by
        rcases asks with rfl | rfl <;> simp
      refine owned.locks there free (fun _ => rfl) none (fun _ out => ?_) (fun _ => ⟨rfl, holds⟩)
        (.inr ⟨rfl, rfl⟩)
      rw [holds] at out
      cases out
  | unlockSecond =>
      obtain ⟨mine, apart⟩ := owned.second i there
      exact owned.unlocks there mine (fun _ => ⟨apart, rfl⟩) (by simp) (fun _ => rfl) fun _ => rfl
  | unlockFirst =>
      have mine := owned.first i (by rw [there]; rfl)
      exact owned.unlocks there mine (by simp [TransferPoint.holdsFirst]) (by simp)
        (fun apart => absurd rfl apart) (by simp)

theorem transfers_owned {p : Transfers Thread Lock}
    (reachable : (transferSystem transfers).Reachable p) : Owned transfers p := by
  refine reachable.invariant ?_ fun _ _ _ taken owned => owned.step taken
  rintro _ rfl
  exact ⟨(by rintro _ ⟨⟩), (by rintro _ ⟨⟩), (by rintro _ _ ⟨⟩)⟩

/-! ## In a circle -/

/-- What of a thread the barrier is about. -/
def TransferPoint.barrier : TransferPoint → BarrierPoint
  | .starting => .running 0
  | .meeting point | .parting _ point => point
  | .asking | .blocked | .got => .running 1
  | .done _ => .running 2

def TransferLabel.barrier? : TransferLabel → Option BarrierLabel
  | .barrier label => some label
  | _ => none

/-- Every thread wants what another one, or itself, holds by then: `bad1` and `bad2`. -/
structure Circle (transfers : Thread → Transfer Lock) : Prop where
  uses : ∀ i, (transfers i).useBarrier = true
  held : ∀ i, ∃ j, (transfers j).first = (transfers i).second
  apart : ∀ i j, (transfers i).first = (transfers j).first → i = j

theorem transfers_barrier [Nonempty Thread] (uses : ∀ i, (transfers i).useBarrier = true)
    {p : Transfers Thread Lock} (reachable : (transferSystem transfers).Reachable p) :
    AtBarrier (p.map LockTable.barrier TransferPoint.barrier) := by
  obtain ⟨trace, _, rfl, run⟩ := reachable
  refine barrier_kept ⟨_, _, rfl,
    Pool.run_map LockTable.barrier TransferPoint.barrier TransferLabel.barrier? ?_ run⟩
  intro i s here label after there step
  cases step with
  | meet _ step | met step | part _ step | parted step =>
      refine ⟨?_, by simp [TransferLabel.barrier?]⟩
      rintro _ ⟨⟩
      exact step
  | skip alone =>
      rw [uses i] at alone
      cases alone
  | lockSecond there =>
      refine ⟨by simp [TransferLabel.barrier?], fun _ => ⟨rfl, ?_⟩⟩
      rcases there with rfl | rfl <;> rfl
  | unlockFirst through =>
      rw [uses i, if_pos rfl] at through
      subst through
      exact ⟨by simp [TransferLabel.barrier?], fun _ => ⟨rfl, rfl⟩⟩
  | lockFirst | ready | block | timeout | unlockSecond =>
      exact ⟨by simp [TransferLabel.barrier?], fun _ => ⟨rfl, rfl⟩⟩

/-- A thread of the circle has not got its second lock and will not. -/
def TransferPoint.Crossed : TransferPoint → Prop
  | .meeting point => point = .running 0 ∨ point = .parked 0 ∨ point = .running 1
  | .got => False
  | .parting gaveUp point =>
      gaveUp = true ∧ (point = .running 1 ∨ point = .parked 1 ∨ point = .running 2)
  | .done gaveUp => gaveUp = true
  | _ => True

/-- Between the barriers every second lock is held. -/
theorem Circle.taken [Nonempty Thread] (circle : Circle transfers) {p : Transfers Thread Lock}
    (reachable : (transferSystem transfers).Reachable p) {i : Thread}
    (between : p.point i = .asking ∨ p.point i = .blocked) :
    p.shared.owner (transfers i).second ≠ none := by
  have barrier := transfers_barrier circle.uses reachable
  have mine : (p.map LockTable.barrier TransferPoint.barrier).point i = .running 1 := by
    rcases between with there | there <;> simp [Pool.map, there, TransferPoint.barrier]
  obtain ⟨j, same⟩ := circle.held i
  have come := barrier.together mine j
  have holds : (p.point j).holdsFirst = true := by
    cases there : p.point j with
    | starting =>
        simp only [Pool.map, there] at come
        cases come
    | done =>
        have through : (p.map LockTable.barrier TransferPoint.barrier).point j = .running 2 := by
          simp only [Pool.map, there]
          rfl
        have left := barrier.together through i
        rw [mine] at left
        simp [BarrierPoint.arrivals] at left
    | _ => rfl
  rw [← same, (transfers_owned reachable).first j holds]
  simp

theorem Circle.step [Nonempty Thread] (circle : Circle transfers) {p next : Transfers Thread Lock}
    {label : Thread × TransferLabel} (reachable : (transferSystem transfers).Reachable p)
    (crossed : ∀ i, (p.point i).Crossed) (taken : (transferSystem transfers).Step p label next) :
    ∀ i, (next.point i).Crossed := by
  have barrier := transfers_barrier circle.uses reachable
  obtain ⟨i, label⟩ := label
  obtain ⟨shared, point, step, rfl⟩ := Pool.exists_move taken
  refine Pool.forall_move (P := fun _ point => TransferPoint.Crossed point) ?_ fun j _ => crossed j
  have mine := crossed i
  have round := barrier.fits i
  have held := circle.taken reachable (i := i)
  simp only [Pool.map] at round
  generalize p.point i = here at step mine round held
  cases step with
  | lockFirst => exact .inl rfl
  | skip | ready | block => trivial
  | meet _ step =>
      cases step with
      | wait => exact .inr (.inl (congrArg _ (Eq.symm round)))
      | «open» => exact .inr (.inr rfl)
  | met step =>
      cases step with
      | pass =>
          rcases mine with mine | mine | mine <;> cases mine
          exact .inr (.inr rfl)
  | lockSecond there free => exact absurd free (held there)
  | timeout => exact ⟨rfl, .inl rfl⟩
  | unlockSecond => exact mine.elim
  | part _ step =>
      refine ⟨mine.1, ?_⟩
      cases step with
      | wait => exact .inr (.inl (congrArg _ (Eq.symm round)))
      | «open» => exact .inr (.inr rfl)
  | parted step =>
      refine ⟨mine.1, ?_⟩
      cases step with
      | pass =>
          rcases mine.2 with mine | mine | mine <;> cases mine
          exact .inr (.inr rfl)
  | unlockFirst => exact mine.1

theorem Circle.crossed [Nonempty Thread] (circle : Circle transfers) {p : Transfers Thread Lock}
    (reachable : (transferSystem transfers).Reachable p) : ∀ i, (p.point i).Crossed := by
  obtain ⟨trace, history⟩ := reachable
  refine history.induct (P := fun _ p => ∀ i, (p.point i).Crossed) ?_
    fun trace p label next earlier crossed taken => circle.step ⟨trace, earlier⟩ crossed taken
  rintro _ rfl i
  trivial

/-- How far a thread is from its end. -/
def TransferPoint.left : TransferPoint → ℕ
  | .starting => 10
  | .meeting (.running 0) => 9
  | .meeting (.parked _) => 8
  | .meeting (.running _) => 7
  | .asking => 6
  | .blocked => 5
  | .got => 4
  | .parting _ (.running 1) => 3
  | .parting _ (.parked _) => 2
  | .parting _ (.running _) => 1
  | .done _ => 0

/-- A thread that leaves the barrier has come to the second one before. -/
def TransferPoint.Leaves : TransferPoint → Prop
  | .parting _ (.parked round) => round = 1
  | _ => True

omit [DecidableEq Thread] [Fintype Thread] in
theorem transfer_lowers {i : Thread} {s after : LockTable Thread Lock} {here point : TransferPoint}
    {label : TransferLabel} (leaves : here.Leaves)
    (step : TransferStep transfers i s here label after point) : point.left < here.left := by
  cases step with
  | meet _ step => cases step <;> simp [TransferPoint.left]
  | met step => cases step with | pass => simp [TransferPoint.left]
  | part _ step => cases step <;> simp [TransferPoint.left]
  | parted step =>
      cases step with
      | pass =>
          have round : _ = 1 := leaves
          subst round
          simp [TransferPoint.left]
  | lockSecond there => rcases there with rfl | rfl <;> simp [TransferPoint.left]
  | unlockFirst through =>
      split at through <;> subst through <;> simp [TransferPoint.left]
  | _ => simp [TransferPoint.left]

/-- A run has as many steps as the threads are nearer to their end. -/
theorem transfers_bounded {trace : List (Thread × TransferLabel)} {p : Transfers Thread Lock}
    (leaves : ∀ p, (transferSystem transfers).Reachable p → ∀ i, (p.point i).Leaves)
    (history : (transferSystem transfers).Trace trace p) :
    trace.length + p.total TransferPoint.left ≤ 10 * Fintype.card Thread := by
  refine history.induct (P := fun trace p =>
    trace.length + p.total TransferPoint.left ≤ 10 * Fintype.card Thread) ?_ ?_
  · rintro _ rfl
    simp [Pool.total, TransferPoint.left, mul_comm]
  · rintro trace p ⟨i, label⟩ next earlier short taken
    obtain ⟨shared, point, step, rfl⟩ := Pool.exists_move taken
    have lower := transfer_lowers (leaves p ⟨_, earlier⟩ i) step
    have moved := p.total_move TransferPoint.left i shared point
    rw [List.length_append, List.length_singleton]
    omega

/-- A thread goes on by itself, without a timeout. -/
def GoesOn (transfers : Thread → Transfer Lock) (p : Transfers Thread Lock) (i : Thread) : Prop :=
  ∃ label next, label ≠ .timeout ∧ (transferSystem transfers).Step p (i, label) next

theorem goesOn {p : Transfers Thread Lock} {i : Thread} {here point : TransferPoint}
    {label : TransferLabel} {after : LockTable Thread Lock} (there : p.point i = here)
    (step : TransferStep transfers i p.shared here label after point)
    (silent : label ≠ .timeout) : GoesOn transfers p i :=
  ⟨label, p.move i after point, silent, _, _, there ▸ step, rfl⟩

/-- Whoever has not come to the barrier comes, and whoever is past it goes on. -/
theorem Circle.goes [Nonempty Thread] (circle : Circle transfers) {p : Transfers Thread Lock}
    (reachable : (transferSystem transfers).Reachable p) {i : Thread}
    (waits : (p.point i).barrier ≠ .parked p.shared.barrier.round)
    (awake : p.point i ≠ .blocked) (still : ∀ gaveUp, p.point i ≠ .done gaveUp) :
    GoesOn transfers p i := by
  have owned := transfers_owned reachable
  have crossed := circle.crossed reachable
  have arrives : ∀ passed, ∃ after point,
      BarrierStep p.shared.barrier (.running passed) .arrive after point := by
    intro passed
    rcases lt_or_ge (p.shared.barrier.arrived + 1) p.shared.barrier.parties with early | last
    · exact ⟨_, _, .wait early⟩
    · exact ⟨_, _, .open last⟩
  have mine := crossed i
  cases there : p.point i with
  | starting =>
      refine goesOn there (.lockFirst ?_) (by simp)
      by_contra taken
      obtain ⟨j, held⟩ := Option.ne_none_iff_exists'.mp taken
      rcases owned.owner _ j held with ⟨same, holds⟩ | ⟨_, got⟩
      · rw [← circle.apart i j same, there] at holds
        cases holds
      · have never := crossed j
        rw [got] at never
        exact never
  | meeting point =>
      rw [there] at mine waits
      rcases mine with rfl | rfl | rfl
      · obtain ⟨after, point, step⟩ := arrives 0
        exact goesOn there (.meet (circle.uses i) step) (by simp)
      · exact goesOn there (.met (.pass fun same => waits (congrArg _ (Eq.symm same)))) (by simp)
      · exact goesOn there .ready (by simp)
  | asking => exact goesOn there (.block (circle.taken reachable (.inl there))) (by simp)
  | blocked => exact absurd there awake
  | got => rw [there] at mine; exact mine.elim
  | parting gaveUp point =>
      rw [there] at mine waits
      rcases mine.2 with rfl | rfl | rfl
      · obtain ⟨after, point, step⟩ := arrives 1
        exact goesOn there (.part (circle.uses i) step) (by simp)
      · exact goesOn there (.parted (.pass fun same => waits (congrArg _ (Eq.symm same)))) (by simp)
      · exact goesOn there (.unlockFirst (by rw [circle.uses i, if_pos rfl])) (by simp)
  | done gaveUp => exact absurd there (still gaveUp)

/-- Where nobody goes on without a timeout, all wait for their second lock, or for the
    others to give up, or have ended. -/
theorem Circle.resting [Nonempty Thread] (circle : Circle transfers) {p : Transfers Thread Lock}
    (reachable : (transferSystem transfers).Reachable p) (stuck : ∀ i, ¬ GoesOn transfers p i)
    (i : Thread) : p.point i = .blocked ∨ (p.point i).barrier = .parked p.shared.barrier.round ∨
      p.point i = .done true := by
  have mine := circle.crossed reachable i
  by_cases waits : (p.point i).barrier = .parked p.shared.barrier.round
  · exact .inr (.inl waits)
  · by_contra! moving
    refine stuck i (circle.goes reachable waits moving.1 fun gaveUp ended => ?_)
    rw [ended] at mine
    exact moving.2.2 (ended.trans (congrArg _ mine))

/-- The threads have not all ended, and somebody goes on, perhaps by a timeout. -/
theorem Circle.able [Nonempty Thread] (circle : Circle transfers) {p : Transfers Thread Lock}
    (reachable : (transferSystem transfers).Reachable p) :
    (∀ i, p.point i = .done true) ∨ ∃ label next, (transferSystem transfers).Step p label next := by
  by_cases stuck : ∀ i, ¬ GoesOn transfers p i
  · have resting := circle.resting reachable stuck
    have barrier := transfers_barrier circle.uses reachable
    by_cases waiting : ∃ i, p.point i = .blocked
    · obtain ⟨i, there⟩ := waiting
      have gives : TransferStep transfers i p.shared (p.point i) .timeout p.shared
          (.parting true (.running 1)) := by
        rw [there]
        exact .timeout
      exact .inr ⟨(i, .timeout), _, _, _, gives, rfl⟩
    · left
      obtain ⟨last, awake⟩ := barrier.somebody
      have ended : p.point last = .done true := by
        rcases resting last with there | there | there
        · exact absurd ⟨last, there⟩ waiting
        · exact absurd there awake
        · exact there
      -- the second round is the last, so nobody can be parked in a third one
      have round : 2 = p.shared.barrier.round := by
        have fits := barrier.fits last
        simp only [Pool.map, ended] at fits
        exact fits
      intro i
      rcases resting i with there | there | there
      · exact absurd ⟨i, there⟩ waiting
      · have mine := circle.crossed reachable i
        rw [← round] at there
        cases point : p.point i with
        | meeting point =>
            rw [point] at mine there
            rcases mine with rfl | rfl | rfl <;> cases there
        | parting gaveUp point =>
            rw [point] at mine there
            rcases mine.2 with rfl | rfl | rfl <;> cases there
        | _ => rw [point] at there; cases there
      · exact there
  · push Not at stuck
    obtain ⟨i, label, next, _, step⟩ := stuck
    exact .inr ⟨_, _, step⟩

/-- No further than waiting for the second lock. -/
def TransferPoint.Waits : TransferPoint → Prop
  | .parting _ _ | .done _ => False
  | _ => True

/-- Without a timeout nobody is past its second lock. -/
theorem Circle.waits [Nonempty Thread] (circle : Circle transfers)
    {trace : List (Thread × TransferLabel)} {p : Transfers Thread Lock}
    (history : (transferSystem transfers).Trace trace p) (silent : ∀ i, (i, .timeout) ∉ trace) :
    ∀ i, (p.point i).Waits := by
  revert silent
  refine history.induct (P := fun trace p =>
    (∀ i, (i, TransferLabel.timeout) ∉ trace) → ∀ i, (p.point i).Waits) ?_ ?_
  · rintro _ rfl _ i
    trivial
  · rintro trace p ⟨i, label⟩ next earlier waits taken silent
    have before := waits fun j member => silent j (List.mem_append_left _ member)
    have crossed := circle.crossed ⟨_, earlier⟩ i
    obtain ⟨shared, point, step, rfl⟩ := Pool.exists_move taken
    refine Pool.forall_move (P := fun _ point => TransferPoint.Waits point) ?_ fun j _ => before j
    have mine := before i
    generalize p.point i = here at step mine crossed
    cases step with
    | timeout => exact absurd (List.mem_append_right _ List.mem_cons_self) (silent i)
    | unlockSecond => exact crossed.elim
    | part | parted | unlockFirst => exact mine.elim
    | _ => trivial

/-- Threads that want their locks in a circle never get the second one. However they are
    run they take few steps, and they end once each has waited long enough and given up.
    Without a timeout nobody ends, and when nobody can go on they wait for each other. -/
theorem circle_gives_up [Nonempty Thread] (circle : Circle transfers)
    {trace : List (Thread × TransferLabel)} {p : Transfers Thread Lock}
    (history : (transferSystem transfers).Trace trace p) :
    (∀ i, (i, .lockSecond) ∉ trace) ∧ trace.length ≤ 10 * Fintype.card Thread ∧
      ((∀ label next, ¬ (transferSystem transfers).Step p label next) →
        ∀ i, p.point i = .done true) ∧
      ((∀ i, (i, .timeout) ∉ trace) → (∀ i gaveUp, p.point i ≠ .done gaveUp) ∧
        ((∀ i label next, (transferSystem transfers).Step p (i, label) next → label = .timeout) →
          ∀ i, p.point i = .blocked ∧
            ∃ j, p.shared.owner (transfers i).second = some j ∧ p.point j = .blocked)) := by
  have reachable : (transferSystem transfers).Reachable p := ⟨trace, history⟩
  refine ⟨fun i member => ?_, ?_, fun stuck => ?_, fun silent => ⟨fun i gaveUp ended => ?_,
    fun stuck => ?_⟩⟩
  · obtain ⟨before, after, rfl⟩ := List.append_of_mem member
    obtain ⟨q, next, earlier, taken, later, _⟩ := history.around
    have crossed := circle.crossed ⟨_, later⟩ i
    obtain ⟨shared, point, step, rfl⟩ := Pool.exists_move taken
    rw [Pool.move_self] at crossed
    generalize q.point i = here at step
    cases step with
    | lockSecond => exact crossed
  · have bounded := transfers_bounded (fun q reached i => ?_) history
    · omega
    · have crossed := circle.crossed reached i
      cases there : q.point i with
      | parting gaveUp point =>
          rw [there] at crossed
          rcases crossed.2 with rfl | rfl | rfl <;> trivial
      | _ => trivial
  · exact (circle.able reachable).resolve_right fun ⟨label, next, taken⟩ => stuck label next taken
  · have waits := circle.waits history silent i
    rw [ended] at waits
    exact waits
  · have waits := circle.waits history silent
    have barrier := transfers_barrier circle.uses reachable
    have resting := circle.resting reachable fun i ⟨label, next, loud, taken⟩ =>
      loud (stuck i label next taken)
    have between : ∀ i, p.point i = .blocked ∨
        (p.point i).barrier = .parked p.shared.barrier.round := by
      intro i
      rcases resting i with there | there | there
      · exact .inl there
      · exact .inr there
      · have mine := waits i
        rw [there] at mine
        exact mine.elim
    obtain ⟨last, awake⟩ := barrier.somebody
    -- somebody is through the first round, so nobody can be parked in it
    have round : 1 = p.shared.barrier.round := by
      have fits := barrier.fits last
      simp only [Pool.map, (between last).resolve_right awake] at fits
      exact fits
    have blocked : ∀ i, p.point i = .blocked := by
      intro i
      refine (between i).resolve_right fun parked => ?_
      have crossed := circle.crossed reachable i
      have mine := waits i
      rw [← round] at parked
      cases there : p.point i with
      | meeting point =>
          rw [there] at parked crossed
          rcases crossed with rfl | rfl | rfl <;> cases parked
      | parting => rw [there] at mine; exact mine
      | _ => rw [there] at parked; cases parked
    intro i
    obtain ⟨j, held⟩ := Option.ne_none_iff_exists'.mp (circle.taken reachable (.inr (blocked i)))
    exact ⟨blocked i, j, held, blocked j⟩

end

/-- `bad1` and `bad2` -/
def badTransfers : Fin 2 → Transfer (Fin 2)
  | 0 => ⟨0, 1, true⟩
  | 1 => ⟨1, 0, true⟩

theorem bad_circle : Circle badTransfers where
  uses := by decide
  held := by decide
  apart := by decide

/-- Both hold one lock and wait for the other's. -/
theorem circle_gives_up_example :
    ∃ trace p, (transferSystem badTransfers).Trace trace p ∧
      ∀ i, p.point i = .blocked ∧
        ∃ j, p.shared.owner (badTransfers i).second = some j ∧ p.point j = .blocked := by
  have run : ∃ p, (transferSystem badTransfers).Trace [(0, .lockFirst), (1, .lockFirst),
      (0, .barrier .arrive), (1, .barrier .arrive), (0, .barrier .pass), (0, .ask), (1, .ask),
      (0, .block), (1, .block)] p ∧ (∀ i, p.point i = .blocked) ∧
        ∀ i, p.shared.owner (badTransfers i).second ≠ none := by
    refine ⟨_, ⟨_, rfl, .cons ⟨_, _, .lockFirst rfl, rfl⟩ (.cons ⟨_, _, .lockFirst rfl, rfl⟩
      (.cons ⟨_, _, .meet rfl (.wait (by decide)), rfl⟩
      (.cons ⟨_, _, .meet rfl (.open (by decide)), rfl⟩
      (.cons ⟨_, _, .met (.pass (by decide)), rfl⟩
      (.cons ⟨_, _, .ready, rfl⟩ (.cons ⟨_, _, .ready, rfl⟩
      (.cons ⟨_, _, .block (by decide), rfl⟩
      (.single ⟨_, _, .block (by decide), rfl⟩))))))))⟩, ?_, ?_⟩
    · decide
    · decide
  obtain ⟨p, history, blocked, held⟩ := run
  refine ⟨_, p, history, ((circle_gives_up bad_circle history).2.2.2 (by decide)).2 ?_⟩
  intro i label next taken
  obtain ⟨shared, point, step, rfl⟩ := Pool.exists_move taken
  rw [blocked i] at step
  cases step with
  | lockSecond _ free => exact absurd free (held i)
  | timeout => rfl

/-! ## In one order -/

section

variable {Thread Lock : Type*} [DecidableEq Thread] [DecidableEq Lock] [Fintype Thread]
  [LinearOrder Lock] {transfers : Thread → Transfer Lock}

/-- No barrier, and every second lock is behind the first: `good1` and `good2`. -/
structure Ordered (transfers : Thread → Transfer Lock) : Prop where
  alone : ∀ i, (transfers i).useBarrier = false
  order : ∀ i, (transfers i).first < (transfers i).second

/-- Past no barrier, and given up only after a timeout. -/
def TransferPoint.Straight (timedOut : Prop) : TransferPoint → Prop
  | .meeting point => point = .running 0
  | .parting gaveUp point => point = .running 1 ∧ (gaveUp = true → timedOut)
  | .done gaveUp => gaveUp = true → timedOut
  | _ => True

omit [Fintype Thread] in
theorem TransferPoint.Straight.mono {before after : Prop} {point : TransferPoint}
    (straight : point.Straight before) (later : before → after) : point.Straight after := by
  cases point with
  | parting => exact ⟨straight.1, fun gaveUp => later (straight.2 gaveUp)⟩
  | done => exact fun gaveUp => later (straight gaveUp)
  | _ => exact straight

theorem Ordered.straight (ordered : Ordered transfers) {trace : List (Thread × TransferLabel)}
    {p : Transfers Thread Lock} (history : (transferSystem transfers).Trace trace p) :
    ∀ i, (p.point i).Straight (∃ j, (j, .timeout) ∈ trace) := by
  refine history.induct (P := fun trace p =>
    ∀ i, (p.point i).Straight (∃ j, (j, TransferLabel.timeout) ∈ trace)) ?_ ?_
  · rintro _ rfl i
    trivial
  · rintro trace p ⟨i, label⟩ next _ straight taken
    obtain ⟨shared, point, step, rfl⟩ := Pool.exists_move taken
    have kept : ∀ j, (p.point j).Straight (∃ j, (j, TransferLabel.timeout) ∈ trace ++ [(i, label)]) :=
      fun j => (straight j).mono fun ⟨k, member⟩ => ⟨k, List.mem_append_left _ member⟩
    refine Pool.forall_move (P := fun _ point => TransferPoint.Straight _ point) ?_ fun j _ => kept j
    have mine := kept i
    generalize p.point i = here at step mine
    cases step with
    | meet uses => rw [ordered.alone i] at uses; cases uses
    | part uses => rw [ordered.alone i] at uses; cases uses
    | met => cases mine
    | parted => cases mine.1
    | lockFirst => rfl
    | timeout => exact ⟨rfl, fun _ => ⟨i, List.mem_append_right _ List.mem_cons_self⟩⟩
    | unlockSecond => exact ⟨rfl, by simp⟩
    | unlockFirst => exact mine.2
    | _ => trivial

/-- The lock a thread cannot go on without. -/
def TransferPoint.wants (transfer : Transfer Lock) : TransferPoint → Option Lock
  | .starting => some transfer.first
  | .blocked => some transfer.second
  | _ => none

/-- Where a thread has not ended, it or another one goes on without a timeout. -/
theorem Ordered.goes (ordered : Ordered transfers) {p : Transfers Thread Lock}
    (reachable : (transferSystem transfers).Reachable p) {i : Thread}
    (still : ∀ gaveUp, p.point i ≠ .done gaveUp) : ∃ j, GoesOn transfers p j := by
  have owned := transfers_owned reachable
  obtain ⟨trace, history⟩ := reachable
  have straight := ordered.straight history
  let holds : Thread → Lock → Prop := fun j lock => p.shared.owner lock = some j
  let wants : Thread → Option Lock := fun j => (p.point j).wants (transfers j)
  have free : ∀ {j lock}, wants j = some lock → ¬ Blocked holds wants j →
      p.shared.owner lock = none := by
    intro j lock asks unblocked
    by_contra taken
    obtain ⟨k, held⟩ := Option.ne_none_iff_exists'.mp taken
    exact unblocked ⟨lock, asks, k, held⟩
  have moves : ∀ j, ¬ Blocked holds wants j → (∀ gaveUp, p.point j ≠ .done gaveUp) →
      GoesOn transfers p j := by
    intro j unblocked still
    have mine := straight j
    cases there : p.point j with
    | starting =>
        exact goesOn there (.lockFirst (free (by simp only [wants, there]; rfl) unblocked)) (by simp)
    | meeting point =>
        rw [there] at mine
        obtain rfl := mine
        exact goesOn there (.skip (ordered.alone j)) (by simp)
    | asking =>
        by_cases taken : p.shared.owner (transfers j).second = none
        · exact goesOn there (.lockSecond (.inl rfl) taken) (by simp)
        · exact goesOn there (.block taken) (by simp)
    | blocked =>
        have second := free (by simp only [wants, there]; rfl) unblocked
        exact goesOn there (.lockSecond (.inr rfl) second) (by simp)
    | got => exact goesOn there .unlockSecond (by simp)
    | parting gaveUp point =>
        rw [there] at mine
        obtain rfl := mine.1
        exact goesOn there (.unlockFirst (by rw [ordered.alone j]; rfl)) (by simp)
    | done gaveUp => exact absurd there (still gaveUp)
  have smaller : ∀ j lock held, wants j = some lock → holds j held → held < lock := by
    intro j lock held asks holding
    have mine := owned.owner held j holding
    cases there : p.point j with
    | blocked =>
        simp only [wants, there, TransferPoint.wants, Option.some.injEq] at asks
        rcases mine with ⟨rfl, _⟩ | ⟨_, got⟩
        · exact asks ▸ ordered.order j
        · rw [there] at got
          cases got
    | starting => simp [there, TransferPoint.holdsFirst] at mine
    | _ => simp [wants, there, TransferPoint.wants] at asks
  by_cases blocked : Blocked holds wants i
  · obtain ⟨j, lock, holding, unblocked⟩ := exists_unblocked smaller blocked
    refine ⟨j, moves j unblocked fun gaveUp ended => ?_⟩
    rcases owned.owner lock j holding with ⟨_, out⟩ | ⟨_, got⟩
    · rw [ended] at out
      cases out
    · rw [ended] at got
      cases got
  · exact ⟨i, moves i blocked still⟩

/-- Behind one first lock the second is free for whoever asks for it. -/
theorem Ordered.second_free (ordered : Ordered transfers)
    (same : ∀ i j, transfers i = transfers j) {p : Transfers Thread Lock}
    (reachable : (transferSystem transfers).Reachable p) {i : Thread}
    (asks : p.point i = .asking) : p.shared.owner (transfers i).second = none := by
  have owned := transfers_owned reachable
  by_contra taken
  obtain ⟨j, held⟩ := Option.ne_none_iff_exists'.mp taken
  rcases owned.owner _ j held with ⟨first, _⟩ | ⟨_, got⟩
  · exact (ordered.order i).ne' (same i j ▸ first)
  · have mine := owned.first i (by rw [asks]; rfl)
    have theirs := owned.first j (by rw [got]; rfl)
    rw [same i j, theirs] at mine
    cases mine
    rw [asks] at got
    cases got

/-- Behind one first lock nobody waits for the second. -/
theorem Ordered.never_blocked (ordered : Ordered transfers)
    (same : ∀ i j, transfers i = transfers j) {trace : List (Thread × TransferLabel)}
    {p : Transfers Thread Lock} (history : (transferSystem transfers).Trace trace p) :
    (∀ i, p.point i ≠ .blocked) ∧ ∀ i, (i, .block) ∉ trace ∧ (i, .timeout) ∉ trace := by
  refine history.induct (P := fun trace p => (∀ i, p.point i ≠ .blocked) ∧
    ∀ i, (i, TransferLabel.block) ∉ trace ∧ (i, TransferLabel.timeout) ∉ trace) ?_ ?_
  · rintro _ rfl
    simp
  · rintro trace p ⟨i, label⟩ next earlier ⟨awake, silent⟩ taken
    obtain ⟨shared, point, step, rfl⟩ := Pool.exists_move taken
    have second := ordered.second_free same ⟨_, earlier⟩ (i := i)
    have here_awake := awake i
    generalize p.point i = here at step second here_awake
    have quiet : point ≠ .blocked ∧ label ≠ .block ∧ label ≠ .timeout := by
      cases step with
      | block held => exact absurd (second rfl) held
      | timeout => exact absurd rfl here_awake
      | _ => simp
    refine ⟨Pool.forall_move (P := fun _ point => point ≠ TransferPoint.blocked) quiet.1
      fun j _ => awake j, fun j => ?_⟩
    simp only [List.mem_append, List.mem_singleton, Prod.mk.injEq, not_or, not_and]
    exact ⟨⟨(silent j).1, fun _ => quiet.2.1.symm⟩, ⟨(silent j).2, fun _ => quiet.2.2.symm⟩⟩

/-- Threads that take their locks in one order need no timeout: however they are run they
    take few steps, and when nobody can go on, not counting timeouts, all have ended, and
    none has given up if no wait has timed out. With the same two locks for all nobody
    ever waits for the second one. -/
theorem order_needs_no_timeout (ordered : Ordered transfers)
    {trace : List (Thread × TransferLabel)} {p : Transfers Thread Lock}
    (history : (transferSystem transfers).Trace trace p) :
    trace.length ≤ 10 * Fintype.card Thread ∧
      ((∀ i label next, (transferSystem transfers).Step p (i, label) next → label = .timeout) →
        ∀ i, ∃ gaveUp, p.point i = .done gaveUp ∧
          (gaveUp = true → ∃ j, (j, .timeout) ∈ trace)) ∧
      ((∀ i j, transfers i = transfers j) →
        ∀ i, (i, .block) ∉ trace ∧ p.point i ≠ .done true) := by
  have straight := ordered.straight history
  refine ⟨?_, fun stuck i => ?_, fun same i => ?_⟩
  · have bounded := transfers_bounded (fun q reached i => ?_) history
    · omega
    · obtain ⟨_, earlier⟩ := reached
      have mine := ordered.straight earlier i
      cases there : q.point i with
      | parting gaveUp point =>
          rw [there] at mine
          obtain rfl := mine.1
          trivial
      | _ => trivial
  · have ended : ∃ gaveUp, p.point i = .done gaveUp := by
      by_contra! still
      obtain ⟨j, label, next, loud, taken⟩ := ordered.goes ⟨_, history⟩ still
      exact loud (stuck j label next taken)
    obtain ⟨gaveUp, ended⟩ := ended
    have mine := straight i
    rw [ended] at mine
    exact ⟨gaveUp, ended, mine⟩
  · have silent := (ordered.never_blocked same history).2
    refine ⟨(silent i).1, fun ended => ?_⟩
    have mine := straight i
    rw [ended] at mine
    obtain ⟨j, timedOut⟩ := mine rfl
    exact (silent j).2 timedOut

/-- `good1` and `good2` -/
def goodTransfers : Fin 2 → Transfer (Fin 2) := fun _ => ⟨0, 1, false⟩

/-- One after the other. -/
theorem order_needs_no_timeout_example :
    ∃ trace p, (transferSystem goodTransfers).Trace trace p ∧
      ∀ i, ∃ gaveUp, p.point i = .done gaveUp ∧ (gaveUp = true → ∃ j, (j, .timeout) ∈ trace) := by
  have run : ∃ p, (transferSystem goodTransfers).Trace [(0, .lockFirst), (0, .ask),
      (0, .lockSecond), (0, .unlockSecond), (0, .unlockFirst), (1, .lockFirst), (1, .ask),
      (1, .lockSecond), (1, .unlockSecond), (1, .unlockFirst)] p ∧
        ∀ i, p.point i = .done false := by
    refine ⟨_, ⟨_, rfl, .cons ⟨_, _, .lockFirst rfl, rfl⟩ (.cons ⟨_, _, .skip rfl, rfl⟩
      (.cons ⟨_, _, .lockSecond (.inl rfl) rfl, rfl⟩ (.cons ⟨_, _, .unlockSecond, rfl⟩
      (.cons ⟨_, _, .unlockFirst rfl, rfl⟩ (.cons ⟨_, _, .lockFirst rfl, rfl⟩
      (.cons ⟨_, _, .skip rfl, rfl⟩ (.cons ⟨_, _, .lockSecond (.inl rfl) rfl, rfl⟩
      (.cons ⟨_, _, .unlockSecond, rfl⟩
      (.single ⟨_, _, .unlockFirst rfl, rfl⟩)))))))))⟩, ?_⟩
    decide
  obtain ⟨p, history, ended⟩ := run
  refine ⟨_, p, history, (order_needs_no_timeout ⟨by decide, by decide⟩ history).2.1 ?_⟩
  intro i label next taken
  obtain ⟨shared, point, step, rfl⟩ := Pool.exists_move taken
  rw [ended i] at step
  cases step with
  | lockSecond there => rcases there with there | there <;> cases there

end

end KernelMonitor
