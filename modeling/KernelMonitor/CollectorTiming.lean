import KernelMonitor.CollectorRuns

/-! # When a timed sweep starts

A sweep that nobody asked for waits for the interval. The deadline is computed before each
wait and a signal ends the wait, so a sleeping thread always sleeps until the interval in
force is over. Between the end of the interval and its taking the mutex again the thread no
longer looks, and a longer interval set there comes too late for the sweep.
-/

namespace KernelMonitor

open Library

theorem Timespec.NotAfter.trans {a b c : Timespec} (first : a.NotAfter b) (second : b.NotAfter c) :
    a.NotAfter c := by
  unfold NotAfter at *
  omega

/-! ## Signals that arrive -/

/-- The calls that end in `pthread_cond_signal`. -/
def CollectorLabel.signals : CollectorLabel → Bool
  | .request | .setInterval _ | .stop => true
  | _ => false

namespace Collector

/-- `pthread_cond_signal` wakes the thread if it waits, and is lost otherwise. -/
def signal (c : Collector) : Collector :=
  match c.thread with
  | .asleep _ => { c with thread := .woken false }
  | _ => c

theorem signal_eq (c : Collector) :
    c.signal = c ∨ ∃ deadline, c.thread = .asleep deadline ∧
      c.signal = { c with thread := .woken false } := by
  unfold signal
  split
  · rename_i deadline there
    exact .inr ⟨deadline, there, rfl⟩
  · exact .inl rfl

theorem signal_not_asleep (c : Collector) (deadline : Timespec) :
    c.signal.thread ≠ .asleep deadline := by
  unfold signal
  split
  · simp
  · rename_i awake
    exact awake deadline

/-- The state after a step, with the signal its label sends. -/
def signalled (label : CollectorLabel) (next : Collector) : Collector :=
  if label.signals then next.signal else next

end Collector

/-- The collector whose signals reach a waiting thread; waits may still end at any time. -/
def signalledSystem : LabelledSystem Collector CollectorLabel where
  Init := collectorSystem.Init
  Step c label after := ∃ next, CollectorStep c label next ∧ after = next.signalled label

/-- A signal that arrives is a wait that ends. -/
theorem signalled_refines {c after : Collector} {label : CollectorLabel}
    (step : signalledSystem.Step c label after) :
    ∃ labels, collectorSystem.Run c labels after := by
  obtain ⟨next, step, rfl⟩ := step
  have one : collectorSystem.Run c [label] next := .single step
  unfold Collector.signalled
  split
  · rcases next.signal_eq with same | ⟨deadline, there, woken⟩
    · exact ⟨_, same ▸ one⟩
    · exact ⟨_, .snoc one (woken ▸ CollectorStep.wake there)⟩
  · exact ⟨_, one⟩

theorem signalled_reachable {c : Collector} (reachable : signalledSystem.Reachable c) :
    collectorSystem.Reachable c := by
  apply reachable.invariant
  · intro s initial
    exact ⟨[], s, initial, .refl s⟩
  · intro s label t step earlier
    obtain ⟨trace, history⟩ := earlier
    obtain ⟨labels, run⟩ := signalled_refines step
    exact ⟨_, history.append run⟩

/-! ## What the thread waits for -/

namespace Collector

/-- The interval in force has passed since the last sweep started. -/
def Due (c : Collector) : Prop := (addMs c.last c.intervalMs).NotAfter c.clock

/-- The thread does not need the interval to leave its wait. -/
def Called (c : Collector) : Prop := c.stopping = true ∨ c.refreshRequested = true

/-- A sleeping thread sleeps until the interval in force is over. -/
def DeadlineCurrent (c : Collector) : Prop :=
  ∀ deadline, c.thread = .asleep deadline → deadline = addMs c.last c.intervalMs

/-- A thread that has timed out, or has left its wait, has waited long enough. -/
def Waited (c : Collector) : Prop :=
  c.thread = .woken true ∨ c.thread = .deciding → c.Called ∨ c.Due

end Collector

theorem CollectorStep.deadlineCurrent {c next : Collector} {label : CollectorLabel}
    (step : CollectorStep c label next) (current : c.DeadlineCurrent) :
    (next.signalled label).DeadlineCurrent := by
  unfold Collector.signalled
  split
  · intro deadline there
    exact absurd there (next.signal_not_asleep deadline)
  · rename_i silent
    intro deadline there
    cases step with
    | request | setInterval | stop => exact absurd rfl silent
    | tick | acquire | release | join => exact current deadline there
    | sleep =>
        cases there
        rfl
    | reacquire =>
        simp only at there
        split at there <;> cases there
    | _ => cases there

theorem signalled_deadlineCurrent {c : Collector} (reachable : signalledSystem.Reachable c) :
    c.DeadlineCurrent := by
  apply reachable.invariant
  · rintro _ ⟨sys, proc, intervalMs, clock, rfl⟩ deadline there
    cases there
  · rintro s label t ⟨next, step, rfl⟩ current
    exact step.deadlineCurrent current

/-- A change of the interval behind a timeout sets one that has passed as well, unless the
    thread is called anyway. -/
def NoLateChange (c : Collector) (label : CollectorLabel) (_ : Collector) : Prop :=
  ∀ ms, label = .setInterval ms → c.thread = .woken true →
    c.Called ∨ (addMs c.last ms).NotAfter c.clock

theorem CollectorStep.waited {c next : Collector} {label : CollectorLabel}
    (step : CollectorStep c label next) (locked : c.Locked) (current : c.DeadlineCurrent)
    (early : NoLateChange c label next) (waited : c.Waited) : next.Waited := by
  intro out
  cases step with
  | tick later =>
      rcases waited out with called | due
      · exact .inl called
      · exact .inr (due.trans later)
  | acquire | release | join => exact waited out
  | request => exact .inl (.inr rfl)
  | stop => exact .inl (.inl rfl)
  | setInterval held =>
      rcases out with timedOut | deciding
      · exact early _ rfl timedOut
      · have inside : c.lock = .collector := locked.mpr (by rw [deciding]; rfl)
        rw [held] at inside
        cases inside
  | timeout there due =>
      rw [current _ there] at due
      exact .inr due
  | reacquire there free =>
      rename_i timedOut
      cases timedOut with
      | true => exact waited (.inl there)
      | false => rcases out with woken | deciding <;> contradiction
  | leaveWait there called => exact .inl called
  | _ => rcases out with woken | deciding <;> simp at *

theorem Collector.Waited.signal {c : Collector} (waited : c.Waited) : c.signal.Waited := by
  rcases c.signal_eq with same | ⟨deadline, there, woken⟩
  · rw [same]
    exact waited
  · rw [woken]
    rintro (timedOut | deciding)
    · cases timedOut
    · cases deciding

theorem steady_waited {c : Collector}
    (reachable : (signalledSystem.restrict NoLateChange).Reachable c) : c.Waited := by
  have known : signalledSystem.Reachable c ∧ c.Waited := by
    apply reachable.invariant (P := fun c => signalledSystem.Reachable c ∧ c.Waited)
    · intro s initial
      obtain ⟨sys, proc, intervalMs, clock, rfl⟩ := initial
      refine ⟨⟨[], _, ⟨sys, proc, intervalMs, clock, rfl⟩, .refl _⟩, ?_⟩
      rintro (woken | deciding) <;> contradiction
    · rintro s label t ⟨step, early⟩ ⟨earlier, waited⟩
      refine ⟨earlier.step step, ?_⟩
      obtain ⟨next, step, rfl⟩ := step
      have after := step.waited (collector_locked (signalled_reachable earlier))
        (signalled_deadlineCurrent earlier) early waited
      unfold Collector.signalled
      split
      · exact after.signal
      · exact after
  exact known.2

/-! ## Timed sweeps -/

/-- The sweep starts here, and no request asked for it. -/
def Collector.SweepsUnasked (c : Collector) (w : Sweep) : Prop :=
  c.refreshRequested = false ∧ ∃ next, signalledSystem.Step c (.startSweep w) next

theorem unasked_sweep_due {c : Collector} {w : Sweep}
    (reachable : (signalledSystem.restrict NoLateChange).Reachable c)
    (sweeps : c.SweepsUnasked w) : c.Due := by
  obtain ⟨unasked, _, _, step, _⟩ := sweeps
  cases step with
  | startSweep there going =>
      rcases steady_waited reachable (.inr there) with (stopping | asked) | due
      · rw [going] at stopping
        cases stopping
      · rw [unasked] at asked
        cases asked
      · exact due

/-- The thread that timed out takes the mutex and sweeps, whatever the interval is now. -/
theorem late_change_sweeps {c late : Collector} {ms : Int} (w : Sweep)
    (change : signalledSystem.Step c (.setInterval ms) late)
    (tooLate : ¬ NoLateChange c (.setInterval ms) late) :
    ∃ early, signalledSystem.Run late [.release, .reacquire] early ∧ early.SweepsUnasked w ∧
      ¬ early.Due := by
  simp only [NoLateChange, CollectorLabel.setInterval.injEq, forall_eq', Collector.Called,
    not_forall, not_or, Bool.not_eq_true] at tooLate
  obtain ⟨there, ⟨going, unasked⟩, ahead⟩ := tooLate
  obtain ⟨next, step, rfl⟩ := change
  cases step with
  | setInterval held =>
      have same : ({ c with intervalMs := ms } : Collector).signalled (.setInterval ms) =
          { c with intervalMs := ms } := by
        simp only [Collector.signalled, CollectorLabel.signals, if_true, Collector.signal, there]
      rw [same]
      have release : signalledSystem.Step { c with intervalMs := ms } .release
          { c with intervalMs := ms, lock := .free } := ⟨_, .release held, rfl⟩
      have reacquire : signalledSystem.Step { c with intervalMs := ms, lock := .free } .reacquire
          { c with intervalMs := ms, lock := .collector, thread := .deciding } :=
        ⟨_, .reacquire there rfl, rfl⟩
      exact ⟨_, .cons release (.single reacquire), ⟨unasked, _, _, .startSweep rfl going, rfl⟩,
        ahead⟩

/-- A sleeping thread's deadline is that of the interval in force. Where no interval is
    changed too late, a sweep that was not asked for starts, where the thread commits itself
    to it under the lock, when the interval in force has passed; and any change that is too
    late can be followed at once by one that starts too early. -/
theorem timed_sweeps_wait (c : Collector) (w : Sweep) :
    (signalledSystem.Reachable c → c.DeadlineCurrent) ∧
    ((signalledSystem.restrict NoLateChange).Reachable c → c.SweepsUnasked w → c.Due) ∧
    ∀ ms late, signalledSystem.Step c (.setInterval ms) late →
      ¬ NoLateChange c (.setInterval ms) late →
      ∃ early, signalledSystem.Run late [.release, .reacquire] early ∧ early.SweepsUnasked w ∧
        ¬ early.Due :=
  ⟨signalled_deadlineCurrent, unasked_sweep_due, fun _ _ => late_change_sweeps w⟩

/-! An interval of two seconds is over, and ten are set before the thread looks again. -/

def exampleWaiting : List CollectorLabel :=
  [.readClock, .lock, .sleep, .tick ⟨12, 0⟩, .timeout]

def exampleTimedOut : Collector :=
  { exampleCollector with thread := .woken true, last := ⟨10, 0⟩, clock := ⟨12, 0⟩ }

theorem steady_step {c after : Collector} {label : CollectorLabel}
    (step : signalledSystem.Step c label after) (other : ∀ ms, label ≠ .setInterval ms) :
    (signalledSystem.restrict NoLateChange).Step c label after :=
  ⟨step, fun ms same => absurd same (other ms)⟩

theorem example_timed_out :
    (signalledSystem.restrict NoLateChange).Trace exampleWaiting exampleTimedOut := by
  have due : (addMs ⟨10, 0⟩ 2000).NotAfter ⟨12, 0⟩ := .inr ⟨rfl, by decide⟩
  refine ⟨exampleCollector, ⟨_, _, _, _, rfl⟩, ?_⟩
  exact .cons (steady_step ⟨_, .readClock rfl, rfl⟩ (by simp)) <|
    .cons (steady_step ⟨_, .lock rfl rfl, rfl⟩ (by simp)) <|
    .cons (steady_step ⟨_, .sleep rfl rfl rfl, rfl⟩ (by simp)) <|
    .cons (steady_step ⟨_, .tick (.inl (by decide)), rfl⟩ (by simp)) <|
    .single (steady_step ⟨_, .timeout rfl due, rfl⟩ (by simp))

def exampleLate : Collector := { exampleTimedOut with intervalMs := 10000, lock := .main }

theorem example_late_change :
    signalledSystem.Step { exampleTimedOut with lock := .main } (.setInterval 10000) exampleLate :=
  ⟨_, .setInterval rfl, rfl⟩

theorem example_too_late :
    ¬ NoLateChange { exampleTimedOut with lock := .main } (.setInterval 10000) exampleLate := by
  intro early
  rcases early 10000 rfl rfl with (stopping | asked) | past
  · cases stopping
  · cases asked
  · rcases past with before | ⟨same, _⟩
    · exact absurd before (by decide)
    · exact absurd same (by decide)

def exampleEarly : Collector := { exampleLate with lock := .collector, thread := .deciding }

/-- The sweep starts two seconds after the last, with an interval of ten in force. -/
theorem interval_not_waited_for :
    signalledSystem.Trace
        (exampleWaiting ++ [.acquire, .setInterval 10000, .release, .reacquire]) exampleEarly ∧
      (∀ w, exampleEarly.SweepsUnasked w) ∧ exampleEarly.intervalMs = 10000 ∧
      exampleEarly.last = ⟨10, 0⟩ ∧ exampleEarly.clock = ⟨12, 0⟩ ∧ ¬ exampleEarly.Due := by
  have change : signalledSystem.Run exampleTimedOut
      [.acquire, .setInterval 10000, .release, .reacquire] exampleEarly :=
    .cons ⟨_, .acquire rfl, rfl⟩ <| .cons example_late_change <|
      .cons ⟨_, .release rfl, rfl⟩ <| .single ⟨_, .reacquire rfl rfl, rfl⟩
  have trace := example_timed_out.unrestrict.append change
  refine ⟨trace, fun w => ⟨rfl, _, _, .startSweep rfl rfl, rfl⟩, rfl, rfl, rfl, ?_⟩
  rintro (before | ⟨same, _⟩)
  · exact absurd before (by decide)
  · exact absurd same (by decide)

theorem timed_sweeps_wait_example :
    exampleTimedOut.DeadlineCurrent ∧
      Collector.Due { exampleTimedOut with
        lock := .collector
        thread := .deciding } ∧
      ∃ early, signalledSystem.Run exampleLate [.release, .reacquire] early ∧
        early.SweepsUnasked exampleSweep ∧ ¬ early.Due := by
  have waiting := example_timed_out
  have deciding := waiting.extend (steady_step ⟨_, .reacquire rfl rfl, rfl⟩ (by simp))
  exact ⟨(timed_sweeps_wait _ exampleSweep).1 ⟨_, waiting.unrestrict⟩,
    (timed_sweeps_wait _ exampleSweep).2.1 ⟨_, deciding⟩ ⟨rfl, _, _, .startSweep rfl rfl, rfl⟩,
    (timed_sweeps_wait _ exampleSweep).2.2 10000 _ example_late_change example_too_late⟩

end KernelMonitor
