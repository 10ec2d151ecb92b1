import KernelMonitor.Library.LabelledRun
import KernelMonitor.SweepSteps

/-! # The collector thread

Model of `src/collector/collector.c` at the granularity of its lock operations. The
thread is a program counter with what it remembers there; the main thread takes part
through the lock and the calls of the collector's interface. A wait may end at any
time, as `pthread_cond_timedwait` allows, so `pthread_cond_signal` adds nothing.
-/

namespace KernelMonitor

open Library

/-- `a` is not after `b`. -/
def Timespec.NotAfter (a b : Timespec) : Prop := a.sec < b.sec ∨ a.sec = b.sec ∧ a.nsec ≤ b.nsec

/-- `add_ms`, with C's division. -/
def addMs (ts : Timespec) (ms : Int) : Timespec :=
  let sec := ts.sec + ms.tdiv 1000
  let nsec := ts.nsec + ms.tmod 1000 * 1000000
  if 1000000000 ≤ nsec then ⟨sec + 1, nsec - 1000000000⟩ else ⟨sec, nsec⟩

/-- Who holds `km_collector.lock`. -/
inductive Holder where
  | free
  | main
  | collector
  deriving DecidableEq, Repr

/-- Where the collector thread is. -/
inductive ThreadPoint where
  | entry
  /-- Before its first `pthread_mutex_lock`. -/
  | starting
  /-- At the condition of the wait loop. -/
  | testing
  | asleep (deadline : Timespec)
  /-- Out of the wait, not yet holding the mutex again. -/
  | woken (timedOut : Bool)
  /-- After the wait loop. -/
  | deciding
  /-- Unlocked, before `km_clock_now(&last)`. -/
  | stamping (w : Sweep)
  | sweeping (w : Sweep) (point : SweepPoint)
  | updating
  | publishing
  | bumping
  /-- Out of the outer loop, before the last `pthread_mutex_unlock`. -/
  | leaving
  | exited

def ThreadPoint.holdsLock : ThreadPoint → Bool
  | .testing | .deciding | .updating | .publishing | .bumping | .leaving => true
  | _ => false

/-- `km_collector` with the monitors it points to, the locals of `collector_main` and
    the monotonic clock. -/
structure Collector where
  lock : Holder
  running : Bool
  sys : SystemMonitor
  proc : ProcessMonitor
  intervalMs : Int
  refreshRequested : Bool
  stopping : Bool
  generation : UInt64
  thread : ThreadPoint
  last : Timespec
  clock : Timespec

/-- `km_collector_start`, once the thread exists. -/
def Collector.start (sys : SystemMonitor) (proc : ProcessMonitor) (intervalMs : Int)
    (clock : Timespec) : Collector where
  lock := .free
  running := true
  sys := sys
  proc := proc
  intervalMs := intervalMs
  refreshRequested := false
  stopping := false
  generation := 0
  thread := .entry
  last := ⟨0, 0⟩
  clock := clock

/-- What happens in one step: to the clock, by the main thread, by the collector. -/
inductive CollectorLabel where
  | tick (now : Timespec)
  | acquire
  | release
  | request
  | setInterval (ms : Int)
  | stop
  | join
  | readClock
  | lock
  | sleep
  | wake
  | timeout
  | reacquire
  | leaveWait
  | giveUp
  | startSweep (w : Sweep)
  | stamp
  | sweep
  | relock
  | updateSys (reads : SystemReads)
  | publish (time : Stamps)
  | bump
  | unlock

/-- The steps of the main thread, in the collector's interface. -/
def CollectorLabel.byMain : CollectorLabel → Bool
  | .acquire | .release | .request | .setInterval _ | .stop | .join => true
  | _ => false

inductive CollectorStep : Collector → CollectorLabel → Collector → Prop where
  | tick {c : Collector} {now : Timespec} (later : c.clock.NotAfter now) :
      CollectorStep c (.tick now) { c with clock := now }
  /-- `km_collector_lock`, and the lock inside the other calls. -/
  | acquire {c : Collector} (free : c.lock = .free) :
      CollectorStep c .acquire { c with lock := .main }
  | release {c : Collector} (held : c.lock = .main) :
      CollectorStep c .release { c with lock := .free }
  /-- The body of `km_collector_request_refresh`. -/
  | request {c : Collector} (held : c.lock = .main) :
      CollectorStep c .request { c with refreshRequested := true }
  /-- The body of `km_collector_set_interval`. -/
  | setInterval {c : Collector} {ms : Int} (held : c.lock = .main) :
      CollectorStep c (.setInterval ms) { c with intervalMs := ms }
  /-- The locked part of `km_collector_stop`. -/
  | stop {c : Collector} (held : c.lock = .main) :
      CollectorStep c .stop { c with stopping := true }
  /-- `pthread_join` returns, and with it `km_collector_stop`. -/
  | join {c : Collector} (let_go : c.lock ≠ .main) (stopped : c.stopping = true)
      (there : c.thread = .exited) :
      CollectorStep c .join { c with running := false }
  | readClock {c : Collector} (there : c.thread = .entry) :
      CollectorStep c .readClock { c with last := c.clock, thread := .starting }
  | lock {c : Collector} (there : c.thread = .starting) (free : c.lock = .free) :
      CollectorStep c .lock { c with lock := .collector, thread := .testing }
  /-- `pthread_cond_timedwait` lets go of the mutex; the deadline is computed anew. -/
  | sleep {c : Collector} (there : c.thread = .testing) (going : c.stopping = false)
      (quiet : c.refreshRequested = false) :
      CollectorStep c .sleep
        { c with lock := .free, thread := .asleep (addMs c.last c.intervalMs) }
  /-- Signalled, or woken for no reason. -/
  | wake {c : Collector} {deadline : Timespec} (there : c.thread = .asleep deadline) :
      CollectorStep c .wake { c with thread := .woken false }
  | timeout {c : Collector} {deadline : Timespec} (there : c.thread = .asleep deadline)
      (due : deadline.NotAfter c.clock) :
      CollectorStep c .timeout { c with thread := .woken true }
  /-- `pthread_cond_timedwait` returns; `ETIMEDOUT` breaks out of the wait loop. -/
  | reacquire {c : Collector} {timedOut : Bool} (there : c.thread = .woken timedOut)
      (free : c.lock = .free) :
      CollectorStep c .reacquire
        { c with lock := .collector, thread := if timedOut then .deciding else .testing }
  | leaveWait {c : Collector} (there : c.thread = .testing)
      (called : c.stopping = true ∨ c.refreshRequested = true) :
      CollectorStep c .leaveWait { c with thread := .deciding }
  | giveUp {c : Collector} (there : c.thread = .deciding) (stopped : c.stopping = true) :
      CollectorStep c .giveUp { c with thread := .leaving }
  /-- The request flag is cleared and the lock released for a sweep. -/
  | startSweep {c : Collector} {w : Sweep} (there : c.thread = .deciding)
      (going : c.stopping = false) :
      CollectorStep c (.startSweep w)
        { c with refreshRequested := false, lock := .free, thread := .stamping w }
  | stamp {c : Collector} {w : Sweep} (there : c.thread = .stamping w) :
      CollectorStep c .stamp { c with last := c.clock, thread := .sweeping w .start }
  | sweep {c : Collector} {w : Sweep} {point next : SweepPoint} {after : ProcessMonitor}
      (there : c.thread = .sweeping w point)
      (step : sweepStep w (point, c.proc) = some (next, after)) :
      CollectorStep c .sweep { c with proc := after, thread := .sweeping w next }
  | relock {c : Collector} {w : Sweep} (there : c.thread = .sweeping w .done)
      (free : c.lock = .free) :
      CollectorStep c .relock { c with lock := .collector, thread := .updating }
  | updateSys {c : Collector} {reads : SystemReads} (there : c.thread = .updating) :
      CollectorStep c (.updateSys reads)
        { c with sys := (c.sys.update reads).2, thread := .publishing }
  | publish {c : Collector} {time : Stamps} (there : c.thread = .publishing) :
      CollectorStep c (.publish time)
        { c with proc := KernelMonitor.publish time c.proc, thread := .bumping }
  | bump {c : Collector} (there : c.thread = .bumping) :
      CollectorStep c .bump { c with generation := c.generation + 1, thread := .testing }
  | unlock {c : Collector} (there : c.thread = .leaving) :
      CollectorStep c .unlock { c with lock := .free, thread := .exited }

/-- The collector with a main thread that may do anything its interface allows. -/
def collectorSystem : LabelledSystem Collector CollectorLabel where
  Init c := ∃ sys proc intervalMs clock, c = .start sys proc intervalMs clock
  Step := CollectorStep

/-! ## The lock -/

/-- The thread is inside its locked code exactly when it holds the lock. -/
def Collector.Locked (c : Collector) : Prop :=
  c.lock = .collector ↔ c.thread.holdsLock = true

theorem CollectorStep.locked {c next : Collector} {label : CollectorLabel}
    (step : CollectorStep c label next) (locked : c.Locked) : next.Locked := by
  unfold Collector.Locked at *
  cases step with
  | reacquire there free => cases ‹Bool› <;> simp_all [ThreadPoint.holdsLock]
  | _ => simp_all [ThreadPoint.holdsLock]

theorem collector_locked {c : Collector} (reachable : collectorSystem.Reachable c) : c.Locked := by
  refine reachable.invariant (P := Collector.Locked) ?_ fun _ _ _ => CollectorStep.locked
  rintro _ ⟨sys, proc, intervalMs, clock, rfl⟩
  simp [Collector.Locked, Collector.start, ThreadPoint.holdsLock]

/-! Reads that fail, and a sweep that finds no process. -/

def exampleReads : SystemReads := ⟨none, none, none, none, none, fun _ => true, posixNumbers⟩

def emptySweep : Sweep := { exampleSweep with dir := none }

end KernelMonitor
