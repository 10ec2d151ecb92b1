import KernelMonitor.CollectorTiming
import KernelMonitor.FreshFrames
import KernelMonitor.Library.FairRun
import KernelMonitor.Library.Simulation

/-! # Fair runs of the program

For what the program is bound to do, its signals have to reach a waiting thread, and both
threads have to be scheduled again and again. A wait need not end by itself, and the user
need not press anything, as `getch` times out; but an open prompt, where it does not, is
answered.
-/

namespace KernelMonitor

open Library

/-! ## The program with its signals -/

/-- The state after a step, with the signal its call sends. -/
def MainLoop.signalled (label : MainLabel) (next : MainLoop) : MainLoop :=
  match label.collector? with
  | some seen => { next with col := next.col.signalled seen }
  | none => next

/-- The program whose signals reach a waiting thread; waits may still end at any time. -/
def signalledProgram : LabelledSystem MainLoop MainLabel where
  Init := mainSystem.Init
  Step s label after := ∃ next, MainStep s label next ∧ after = next.signalled label

/-- What a signal leaves alone. -/
structure Signalled (next after : MainLoop) : Prop where
  main : after.main = next.main
  ui : after.ui = next.ui
  running : after.running = next.running
  needsRedraw : after.needsRedraw = next.needsRedraw
  drawnGeneration : after.drawnGeneration = next.drawnGeneration
  col : after.col = next.col ∨ ∃ deadline, next.col.thread = .asleep deadline ∧
    after.col = { next.col with thread := .woken false }

theorem Collector.signalled_eq (label : CollectorLabel) (c : Collector) :
    c.signalled label = c ∨ ∃ deadline, c.thread = .asleep deadline ∧
      c.signalled label = { c with thread := .woken false } := by
  unfold signalled
  split
  · exact c.signal_eq
  · exact .inl rfl

theorem MainLoop.signalled_keeps (label : MainLabel) (next : MainLoop) :
    Signalled next (next.signalled label) := by
  unfold MainLoop.signalled
  cases label.collector? with
  | none => exact ⟨rfl, rfl, rfl, rfl, rfl, .inl rfl⟩
  | some seen => exact ⟨rfl, rfl, rfl, rfl, rfl, next.col.signalled_eq seen⟩

/-- A signal that arrives is a wait that ends. -/
theorem signalledProgram_refines {s after : MainLoop} {label : MainLabel}
    (step : signalledProgram.Step s label after) : ∃ labels, mainSystem.Run s labels after := by
  obtain ⟨next, step, rfl⟩ := step
  have one : mainSystem.Run s [label] next := .single step
  unfold MainLoop.signalled
  cases label.collector? with
  | none => exact ⟨_, one⟩
  | some seen =>
      rcases next.col.signalled_eq seen with same | ⟨deadline, there, woken⟩
      · simp only [same]
        exact ⟨_, one⟩
      · simp only [woken]
        exact ⟨_, .snoc one (MainStep.background rfl (CollectorStep.wake there))⟩

theorem signalledProgram_reachable {s : MainLoop} (reachable : signalledProgram.Reachable s) :
    mainSystem.Reachable s := by
  have init : ∀ s, signalledProgram.Init s → mainSystem.Init s := fun _ initial => initial
  exact reachable.refined init fun _ _ _ => signalledProgram_refines

/-! ## Shutting down, and asleep -/

/-- Where the loop has been left. -/
def MainPoint.shutting : MainPoint → Bool
  | .calling .stop | .inside .stop | .returning .stop | .joining | .finished => true
  | _ => false

/-- Behind the locked part of `km_collector_stop`. -/
def MainPoint.stopped : MainPoint → Bool
  | .returning .stop | .joining | .finished => true
  | _ => false

/-- The order in which the program comes to its end. -/
structure MainLoop.Orderly (s : MainLoop) : Prop where
  quitting : s.main.shutting = true → s.running = false
  stopping : s.col.stopping = s.main.stopped
  alive : s.col.running = false → s.main = .finished
  exited : s.main = .finished → s.col.thread = .exited
  leaving : s.col.thread = .leaving ∨ s.col.thread = .exited → s.col.stopping = true

/-- A step of the collector's system that is none of the main thread's. -/
theorem CollectorStep.own_kept {c next : Collector} {label : CollectorLabel}
    (step : CollectorStep c label next) (own : label.byMain = false) :
    next.stopping = c.stopping ∧ next.running = c.running := by
  cases step <;> first | exact ⟨rfl, rfl⟩ | cases own

/-- The thread leaves only when told to, and stays away. -/
theorem CollectorStep.leaving {c next : Collector} {label : CollectorLabel}
    (step : CollectorStep c label next)
    (leaving : c.thread = .leaving ∨ c.thread = .exited → c.stopping = true) :
    next.thread = .leaving ∨ next.thread = .exited → next.stopping = true := by
  cases step with
  | stop => exact fun _ => rfl
  | giveUp there stopped => exact fun _ => stopped
  | unlock there => exact fun _ => leaving (.inl there)
  | reacquire there free => cases ‹Bool› <;> simp
  | tick | acquire | release | request | setInterval | join => exact leaving
  | _ => simp

/-- Only the call that sets it changes the flag, and only the join ends the run. -/
theorem CollectorStep.flags {c next : Collector} {label : CollectorLabel}
    (step : CollectorStep c label next) (stop : label ≠ .stop) (join : label ≠ .join) :
    next.stopping = c.stopping ∧ next.running = c.running := by
  cases step with
  | stop => exact absurd rfl stop
  | join => exact absurd rfl join
  | _ => exact ⟨rfl, rfl⟩

theorem CollectorStep.exited {c next : Collector} {label : CollectorLabel}
    (step : CollectorStep c label next) (there : c.thread = .exited) : next.thread = .exited :=
  (CollectorStep.exited_kept step there).1

namespace MainLoop.Orderly

variable {s next : MainLoop}

/-- A step inside the loop, or one that is not the main thread's. -/
theorem inLoop (orderly : s.Orderly) (running : next.main.shutting = true → next.running = false)
    (stopped : next.main.stopped = s.main.stopped)
    (finished : next.main = .finished ↔ s.main = .finished)
    (flags : next.col.stopping = s.col.stopping ∧ next.col.running = s.col.running)
    (exited : s.col.thread = .exited → next.col.thread = .exited)
    (leaving : next.col.thread = .leaving ∨ next.col.thread = .exited →
      next.col.stopping = true) : next.Orderly where
  quitting := running
  stopping := by rw [flags.1, stopped, orderly.stopping]
  alive ended := finished.mpr (orderly.alive (flags.2 ▸ ended))
  exited there := exited (orderly.exited (finished.mp there))
  leaving := leaving

/-- A step that leaves the collector alone. -/
theorem moved (orderly : s.Orderly) (col : next.col = s.col)
    (running : next.main.shutting = true → next.running = false)
    (stopped : next.main.stopped = s.main.stopped)
    (finished : next.main = .finished ↔ s.main = .finished) : next.Orderly := by
  refine orderly.inLoop running stopped finished ?_ ?_ ?_ <;> rw [col]
  · exact ⟨rfl, rfl⟩
  · exact id
  · exact orderly.leaving

end MainLoop.Orderly

theorem MainPoint.stopped_shutting {point : MainPoint} (outside : point.shutting = false) :
    point.stopped = false ∧ point ≠ .finished := by
  cases point with
  | calling call | inside call | returning call =>
      cases call <;> first | exact ⟨rfl, by simp⟩ | cases outside
  | joining | finished => cases outside
  | _ => exact ⟨rfl, by simp⟩

theorem MainLoop.runCommand_shutting (s : MainLoop) (command : Command) :
    (s.runCommand command).main.shutting = false := by
  cases command with
  | enter | resume =>
      simp only [runCommand]
      split <;> rfl
  | signal action =>
      simp only [runCommand]
      split
      · rfl
      · split <;> rfl
  | _ => rfl

theorem MainLoop.handleKey_shutting (s : MainLoop) (ch : Int) :
    (s.handleKey ch).main.shutting = false := by
  unfold handleKey
  cases commandOf ch with
  | none => rfl
  | some command => exact runCommand_shutting _ command

/-- A step between places that are no part of the end. -/
theorem MainLoop.Orderly.within {s next : MainLoop} (orderly : s.Orderly)
    (col : next.col.stopping = s.col.stopping ∧ next.col.running = s.col.running)
    (thread : next.col.thread = s.col.thread) (here : s.main.shutting = false)
    (there : next.main.shutting = false) : next.Orderly := by
  have before := MainPoint.stopped_shutting here
  have after := MainPoint.stopped_shutting there
  refine orderly.inLoop ?_ ?_ ?_ col ?_ ?_
  · intro ending
    rw [there] at ending
    cases ending
  · rw [before.1, after.1]
  · exact ⟨fun ended => absurd ended after.2, fun ended => absurd ended before.2⟩
  · exact fun exited => thread.trans exited
  · rw [thread, col.1]
    exact orderly.leaving

theorem MainStep.orderly {s next : MainLoop} {label : MainLabel} (step : MainStep s label next)
    (orderly : s.Orderly) : next.Orderly := by
  cases step with
  | background own step =>
      exact orderly.inLoop orderly.quitting rfl Iff.rfl (step.own_kept own) step.exited
        (step.leaving orderly.leaving)
  | interrupt => exact orderly.moved rfl (fun _ => rfl) rfl Iff.rfl
  | test there =>
      cases running : s.running with
      | true => exact orderly.within ⟨rfl, rfl⟩ rfl (by rw [there]; rfl) (by simp [MainPoint.shutting])
      | false =>
          cases alive : s.col.running with
          | true =>
              refine orderly.moved rfl (fun _ => rfl) ?_ ?_ <;> rw [there] <;>
                simp [MainPoint.stopped]
          | false =>
              have ended := orderly.alive alive
              rw [there] at ended
              cases ended
  | key there =>
      have kept := s.handleKey_kept ‹Int›
      exact orderly.within (by rw [kept.col]; exact ⟨rfl, rfl⟩) (by rw [kept.col])
        (by rw [there]; rfl) (s.handleKey_shutting _)
  | lock waiting step =>
      cases step
      cases there : s.main with
      | calling call =>
          rw [there] at waiting
          cases waiting
          refine orderly.inLoop ?_ ?_ ?_ ⟨rfl, rfl⟩ id orderly.leaving
          · intro ending
            refine orderly.quitting ?_
            rw [there]
            cases call <;> exact ending
          · rw [there]
            cases call <;> rfl
          · rw [there]
            simp
      | seeking | redraw =>
          rw [there] at waiting
          cases waiting
          exact orderly.within ⟨rfl, rfl⟩ rfl (by rw [there]; rfl) rfl
      | _ => rw [there] at waiting; cases waiting
  | @call call col there step =>
      cases call with
      | stop =>
          have quitting := orderly.quitting (by rw [there]; rfl)
          have alive : s.col.running = true := by
            by_contra ended
            rw [Bool.not_eq_true] at ended
            rw [orderly.alive ended] at there
            cases there
          cases step
          exact ⟨fun _ => quitting, rfl, (fun ended => by rw [alive] at ended; cases ended),
            (fun finished => by cases finished), fun _ => rfl⟩
      | requestRefresh | setInterval =>
          cases step
          exact orderly.within ⟨rfl, rfl⟩ rfl (by rw [there]; rfl) rfl
  | @returned call col there step =>
      cases step
      cases call with
      | stop =>
          refine orderly.inLoop (fun _ => orderly.quitting (by rw [there]; rfl)) ?_ ?_ ⟨rfl, rfl⟩ id
            orderly.leaving <;> rw [there]
          · rfl
          · simp [MainLoop.afterCall]
      | requestRefresh | setInterval =>
          exact orderly.within ⟨rfl, rfl⟩ rfl (by rw [there]; rfl) rfl
  | find there | frame there | skip there | kill there | refused there =>
      exact orderly.within ⟨rfl, rfl⟩ rfl (by rw [there]; rfl) rfl
  | looked there step =>
      cases step
      cases ‹Option Bytes› <;> exact orderly.within ⟨rfl, rfl⟩ rfl (by rw [there]; rfl) rfl
  | confirm there =>
      unfold MainLoop.afterConfirm
      split <;> exact orderly.within ⟨rfl, rfl⟩ rfl (by rw [there]; rfl) rfl
  | compare there =>
      unfold MainLoop.compareGenerations
      split <;> exact orderly.within ⟨rfl, rfl⟩ rfl (by rw [there]; rfl) rfl
  | release there step =>
      cases step
      exact orderly.within ⟨rfl, rfl⟩ rfl (by rw [there]; rfl) rfl
  | join there step =>
      have stopping := orderly.stopping
      rw [there] at stopping
      cases step with
      | join letGo stopped exited =>
          exact ⟨fun _ => orderly.quitting (by rw [there]; rfl), stopping, fun _ => rfl,
            fun _ => exited, orderly.leaving⟩

/-! ## What holds along a fair run -/

/-- A thread that sleeps has not been called. -/
def Collector.Undisturbed (c : Collector) : Prop :=
  ∀ deadline, c.thread = .asleep deadline → c.stopping = false ∧ c.refreshRequested = false

theorem CollectorStep.undisturbed {c next : Collector} {label : CollectorLabel}
    (step : CollectorStep c label next) (quiet : c.Undisturbed) :
    (next.signalled label).Undisturbed := by
  unfold Collector.signalled
  split
  · intro deadline there
    exact absurd there (next.signal_not_asleep deadline)
  · rename_i silent
    intro deadline there
    cases step with
    | request | setInterval | stop => exact absurd rfl silent
    | tick | acquire | release | join => exact quiet deadline there
    | sleep awake going unasked => exact ⟨going, unasked⟩
    | reacquire =>
        simp only at there
        split at there <;> cases there
    | _ => cases there

/-- What holds of every state the program reaches. -/
structure MainLoop.Sound (s : MainLoop) : Prop where
  synced : s.Synced
  locked : s.col.Locked
  orderly : s.Orderly
  undisturbed : s.col.Undisturbed

theorem main_orderly {s : MainLoop} (reachable : mainSystem.Reachable s) : s.Orderly := by
  refine reachable.invariant (P := MainLoop.Orderly) ?_ fun _ _ _ => MainStep.orderly
  rintro _ ⟨_, _, _, _, _, _, _, _, _, rfl⟩
  exact ⟨(fun ending => by cases ending), rfl, (fun ended => by cases ended),
    (fun finished => by cases finished), fun out => by rcases out with out | out <;> cases out⟩

theorem MainStep.undisturbed {s next : MainLoop} {label : MainLabel} (step : MainStep s label next)
    (quiet : s.col.Undisturbed) : (next.signalled label).col.Undisturbed := by
  have seen := MainStep.collector step
  unfold MainLoop.signalled
  cases known : label.collector? with
  | none =>
      rw [known] at seen
      exact seen ▸ quiet
  | some inner =>
      rw [known] at seen
      exact CollectorStep.undisturbed seen quiet

theorem signalledProgram_sound {s : MainLoop} (reachable : signalledProgram.Reachable s) :
    s.Sound := by
  have plain := signalledProgram_reachable reachable
  obtain ⟨trace, history⟩ := plain
  refine ⟨main_synced history, collector_locked ⟨_, main_collector_trace history⟩,
    main_orderly ⟨trace, history⟩, ?_⟩
  refine reachable.invariant (P := fun s => s.col.Undisturbed) ?_ ?_
  · rintro _ ⟨_, _, _, _, _, _, _, _, _, rfl⟩ deadline there
    cases there
  · rintro s label after ⟨next, step, rfl⟩ quiet
    exact MainStep.undisturbed step quiet

/-! ## The two threads -/

/-- A step of the main thread. -/
def MainLabel.ofMain : MainLabel → Bool
  | .background _ | .interrupt => false
  | _ => true

/-- A step of the collector thread, but for the end of a wait. -/
def MainLabel.ofThread : MainLabel → Bool
  | .background label =>
      match label with
      | .tick _ | .wake | .timeout => false
      | _ => true
  | _ => false

/-- Both threads go on if they can again and again. -/
structure FairlyScheduled (b : signalledProgram.Behaviour) : Prop where
  main : b.StronglyFair fun label => label.ofMain = true
  thread : b.StronglyFair fun label => label.ofThread = true

/-! ## The lock -/

/-- How many steps the main thread is from its unlock. -/
def MainPoint.heldFor : MainPoint → Nat
  | .inside _ | .finding _ _ | .painting => 2
  | .returning _ | .found _ _ _ | .painted => 1
  | .comparing => 3
  | _ => 0

/-- How many steps the thread is at most from its unlock. -/
def ThreadPoint.heldFor : ThreadPoint → Nat
  | .updating => 6
  | .publishing => 5
  | .bumping => 4
  | .testing => 3
  | .deciding => 2
  | .leaving => 1
  | _ => 0

/-- A step while a thread holds the lock: it is let go, or the thread comes nearer to that. -/
def Releases (held : Holder) (lock : Holder) (before after : Nat) (own : Prop) : Prop :=
  lock = .free ∨ lock = held ∧ after ≤ before ∧ (own → after < before)

theorem Releases.still {held lock : Holder} {before after : Nat} {own : Prop} (same : lock = held)
    (stays : after = before) (other : ¬ own) : Releases held lock before after own :=
  .inr ⟨same, stays.le, fun mine => absurd mine other⟩

theorem Releases.nearer {held lock : Holder} {before after : Nat} {own : Prop} (same : lock = held)
    (closer : after < before) : Releases held lock before after own :=
  .inr ⟨same, closer.le, fun _ => closer⟩

theorem MainStep.main_releases {s next : MainLoop} {label : MainLabel}
    (step : MainStep s label next) (sound : s.Sound) (held : s.col.lock = .main) :
    Releases .main next.col.lock s.main.heldFor next.main.heldFor (label.ofMain = true) := by
  have inside := sound.synced.lock.mp held
  cases step with
  | background own step =>
      have lock := (step.background sound.locked own).1.mpr held
      exact .still lock rfl (by simp [MainLabel.ofMain])
  | interrupt => exact .still held rfl (by simp [MainLabel.ofMain])
  | test there | key there | confirm there | kill there | refused there | join there =>
      rw [there] at inside
      cases inside
  | lock waiting step =>
      cases step with
      | acquire free =>
          rw [held] at free
          cases free
  | call there step =>
      refine .nearer ?_ (by rw [there]; simp [MainPoint.heldFor])
      cases ‹ApiCall› <;> cases step <;> exact held
  | find there =>
      exact .nearer held (by rw [there]; simp [MainLoop.afterFind, MainPoint.heldFor])
  | compare there =>
      unfold MainLoop.compareGenerations
      split <;> exact .nearer held (by rw [there]; simp [MainPoint.heldFor])
  | frame there | skip there => exact .nearer held (by rw [there]; simp [MainPoint.heldFor])
  | returned there step =>
      cases step
      cases ‹ApiCall› <;> exact .inl rfl
  | looked there step =>
      cases step
      cases ‹Option Bytes› <;> exact .inl rfl
  | release there step =>
      cases step
      exact .inl rfl

theorem CollectorStep.thread_releases {c next : Collector} {label : CollectorLabel}
    (step : CollectorStep c label next) (own : label.byMain = false) (locked : c.Locked)
    (held : c.lock = .collector) :
    Releases .collector next.lock c.thread.heldFor next.thread.heldFor
      (label.isTick = false) := by
  have inside := locked.mp held
  cases step with
  | tick => exact .still held rfl (by simp [CollectorLabel.isTick])
  | sleep | startSweep | unlock => exact .inl rfl
  | leaveWait there | giveUp there | updateSys there | publish there | bump there =>
      exact .nearer held (by rw [there]; simp [ThreadPoint.heldFor])
  | readClock there | lock there | wake there | timeout there | reacquire there | stamp there
  | sweep there | relock there =>
      rw [there] at inside
      cases inside
  | _ => cases own

theorem MainStep.thread_releases {s next : MainLoop} {label : MainLabel}
    (step : MainStep s label next) (sound : s.Sound) (held : s.col.lock = .collector) :
    Releases .collector next.col.lock s.col.thread.heldFor next.col.thread.heldFor
      (label.ofThread = true) := by
  have apart : s.col.lock ≠ .main := by
    rw [held]
    decide
  cases step with
  | @background label col own step =>
      rcases step.thread_releases own sound.locked held with freed | ⟨same, near, closer⟩
      · exact .inl freed
      · refine .inr ⟨same, near, fun mine => closer ?_⟩
        cases label <;> first | rfl | cases mine
  | key there =>
      rw [(s.handleKey_kept _).col]
      exact .still held rfl (by simp [MainLabel.ofThread])
  | lock waiting step =>
      cases step with
      | acquire free =>
          rw [held] at free
          cases free
  | call there step =>
      cases ‹ApiCall› <;> cases step <;> exact absurd ‹_› apart
  | returned there step | looked there step | release there step =>
      cases step with
      | release mine => exact absurd mine apart
  | join there step =>
      cases step
      exact .still held rfl (by simp [MainLabel.ofThread])
  | confirm there =>
      unfold MainLoop.afterConfirm
      split <;> exact .still held rfl (by simp [MainLabel.ofThread])
  | compare there =>
      unfold MainLoop.compareGenerations
      split <;> exact .still held rfl (by simp [MainLabel.ofThread])
  | _ => exact .still held rfl (by simp [MainLabel.ofThread])

/-! ## Who can go on -/

/-- Where the main thread can go on, it does not wait for the lock or for the thread. -/
theorem main_enabled {s : MainLoop} (sound : s.Sound) (going : s.main ≠ .finished)
    (free : ∀ next, s.main.locked? = some next → s.col.lock = .free)
    (joins : s.main = .joining → s.col.thread = .exited) :
    signalledProgram.Enabled (fun label => label.ofMain = true) s := by
  have able : ∃ label next, label.ofMain = true ∧ MainStep s label next := by
    have held := fun inside => sound.synced.lock.mpr inside
    cases there : s.main with
    | testing => exact ⟨_, _, rfl, .test there⟩
    | input => exact ⟨.key (-1), _, rfl, .key there⟩
    | calling call =>
        exact ⟨.lock, _, rfl, .lock (by rw [there]; rfl) (.acquire (free _ (by rw [there]; rfl)))⟩
    | inside call =>
        have mine := held (by rw [there]; rfl)
        cases call with
        | requestRefresh => exact ⟨.call .requestRefresh, _, rfl, .call there (.request mine)⟩
        | setInterval ms => exact ⟨.call (.setInterval ms), _, rfl, .call there (.setInterval mine)⟩
        | stop => exact ⟨.call .stop, _, rfl, .call there (.stop mine)⟩
    | returning call =>
        exact ⟨.unlock, _, rfl, .returned there (.release (held (by rw [there]; rfl)))⟩
    | seeking action pid =>
        exact ⟨.lock, _, rfl, .lock (by rw [there]; rfl) (.acquire (free _ (by rw [there]; rfl)))⟩
    | finding action pid => exact ⟨_, _, rfl, .find there⟩
    | found action pid name =>
        exact ⟨.unlock, _, rfl, .looked there (.release (held (by rw [there]; rfl)))⟩
    | asking action pid name => exact ⟨.confirm _ true 110, _, rfl, .confirm there⟩
    | signalling signal pid =>
        cases made : killCall pid signal with
        | some call => exact ⟨.kill call (.ok ()), _, rfl, .kill there made⟩
        | none => exact ⟨.refused, _, rfl, .refused there made⟩
    | redraw =>
        exact ⟨.lock, _, rfl, .lock (by rw [there]; rfl) (.acquire (free _ (by rw [there]; rfl)))⟩
    | comparing => exact ⟨.compare, _, rfl, .compare there⟩
    | painting =>
        cases due : s.needsRedraw with
        | true =>
            exact ⟨.frame (s.ui.draw ⟨true, true, ⟨true, none⟩⟩ 80 24 s.col.sys s.col.proc).2, _, rfl,
              .frame there due⟩
        | false => exact ⟨.skip, _, rfl, .skip there due⟩
    | painted => exact ⟨.unlock, _, rfl, .release there (.release (held (by rw [there]; rfl)))⟩
    | joining =>
        have stopping := sound.orderly.stopping
        rw [there] at stopping
        have apart : s.col.lock ≠ .main := fun mine => by
          have inside := sound.synced.lock.mp mine
          rw [there] at inside
          cases inside
        exact ⟨.join, _, rfl, .join there (.join apart stopping (joins there))⟩
    | finished => exact absurd there going
  obtain ⟨label, next, own, step⟩ := able
  exact ⟨label, _, own, next, step, rfl⟩

/-- Where the thread waits for the lock. -/
def ThreadPoint.waits : ThreadPoint → Bool
  | .starting | .woken _ | .sweeping _ .done => true
  | _ => false

theorem MainPoint.locked_outside {point : MainPoint} (inside : point.holdsLock = true) :
    point.locked? = none := by
  cases point <;> first | rfl | cases inside

theorem ThreadPoint.waits_outside {point : ThreadPoint} (inside : point.holdsLock = true) :
    point.waits = false := by
  cases point <;> first | rfl | cases inside

theorem sweepStep_some (w : Sweep) {point : SweepPoint} (m : ProcessMonitor)
    (going : point ≠ .done) : ∃ next after, sweepStep w (point, m) = some (next, after) := by
  cases point with
  | start | finish => exact ⟨_, _, rfl⟩
  | loop seconds rest =>
      cases rest with
      | nil => exact ⟨_, _, rfl⟩
      | cons pid rest =>
          simp only [sweepStep]
          cases incomingReserve (w.growIncoming pid) m <;> exact ⟨_, _, rfl⟩
  | done => exact absurd rfl going

theorem thread_enabled {s : MainLoop} (going : s.col.thread ≠ .exited)
    (awake : ∀ deadline, s.col.thread ≠ .asleep deadline)
    (free : s.col.thread.waits = true → s.col.lock = .free) :
    signalledProgram.Enabled (fun label => label.ofThread = true) s := by
  have able : ∃ label col, (MainLabel.background label).ofThread = true ∧
      label.byMain = false ∧ CollectorStep s.col label col := by
    cases there : s.col.thread with
    | entry => exact ⟨_, _, rfl, rfl, .readClock there⟩
    | starting => exact ⟨_, _, rfl, rfl, .lock there (free (by rw [there]; rfl))⟩
    | testing =>
        by_cases called : s.col.stopping = true ∨ s.col.refreshRequested = true
        · exact ⟨_, _, rfl, rfl, .leaveWait there called⟩
        · rw [not_or, Bool.not_eq_true, Bool.not_eq_true] at called
          exact ⟨_, _, rfl, rfl, .sleep there called.1 called.2⟩
    | asleep deadline => exact absurd there (awake deadline)
    | woken timedOut => exact ⟨_, _, rfl, rfl, .reacquire there (free (by rw [there]; rfl))⟩
    | deciding =>
        cases stopping : s.col.stopping with
        | true => exact ⟨_, _, rfl, rfl, .giveUp there stopping⟩
        | false => exact ⟨.startSweep exampleSweep, _, rfl, rfl, .startSweep there stopping⟩
    | stamping w => exact ⟨_, _, rfl, rfl, .stamp there⟩
    | sweeping w point =>
        by_cases last : point = .done
        · subst last
          exact ⟨_, _, rfl, rfl, .relock there (free (by rw [there]; rfl))⟩
        · obtain ⟨next, after, step⟩ := sweepStep_some w s.col.proc last
          exact ⟨_, _, rfl, rfl, .sweep there step⟩
    | updating => exact ⟨.updateSys exampleReads, _, rfl, rfl, .updateSys there⟩
    | publishing => exact ⟨.publish exampleStamps, _, rfl, rfl, .publish there⟩
    | bumping => exact ⟨_, _, rfl, rfl, .bump there⟩
    | leaving => exact ⟨_, _, rfl, rfl, .unlock there⟩
    | exited => exact absurd there going
  obtain ⟨label, col, mine, own, step⟩ := able
  exact ⟨.background label, _, mine, _, .background own step, rfl⟩

/-! ## The lock comes free -/

theorem Signalled.lock {next after : MainLoop} (kept : Signalled next after) :
    after.col.lock = next.col.lock := by
  rcases kept.col with same | ⟨_, _, woken⟩
  · rw [same]
  · rw [woken]

theorem Signalled.heldFor {next after : MainLoop} (kept : Signalled next after) :
    after.col.thread.heldFor = next.col.thread.heldFor := by
  rcases kept.col with same | ⟨deadline, there, woken⟩
  · rw [same]
  · rw [woken, there]
    rfl

section

variable {b : signalledProgram.Behaviour} (initial : signalledProgram.Init (b.state 0))
include initial

theorem sound_at (n : ℕ) : (b.state n).Sound :=
  signalledProgram_sound (LabelledSystem.Behaviour.reachable initial n)

omit initial in
/-- Whoever holds the lock and can go on lets go of it. -/
theorem lets_go {party : MainLabel → Bool} {held : Holder} (distance : MainLoop → ℕ)
    (fair : b.StronglyFair fun label => party label = true)
    (step : ∀ n, (b.state n).col.lock = held →
      Releases held (b.state (n + 1)).col.lock (distance (b.state n)) (distance (b.state (n + 1)))
        (party (b.label n) = true))
    (able : ∀ n, (b.state n).col.lock = held →
      signalledProgram.Enabled (fun label => party label = true) (b.state n))
    {n : ℕ} (now : (b.state n).col.lock = held) : ∃ m ≥ n, (b.state m).col.lock = .free := by
  have nears : b.Nears (fun label => party label = true) (fun n => (b.state n).col.lock = held)
      (fun n => (b.state n).col.lock = .free) fun n => distance (b.state n) := ?_
  · exact fair.reaches nears now
  refine ⟨?_, ?_, fun n now => .inr ⟨n, le_rfl, able n now⟩⟩
  · intro n now
    rcases step n now with free | ⟨same, near, _⟩
    · exact .inl ⟨n + 1, Nat.le_succ n, free⟩
    · exact .inr ⟨same, near⟩
  · intro n now own
    rcases step n now with free | ⟨_, _, closer⟩
    · exact .inl ⟨n + 1, Nat.le_succ n, free⟩
    · exact .inr (closer own)

theorem main_lets_go (fair : FairlyScheduled b) {n : ℕ} (held : (b.state n).col.lock = .main) :
    ∃ m ≥ n, (b.state m).col.lock = .free := by
  refine lets_go (fun s => s.main.heldFor) fair.main ?_ ?_ held
  · intro n held
    obtain ⟨next, step, after⟩ := b.step n
    have kept := next.signalled_keeps (b.label n)
    rw [after, kept.lock, kept.main]
    exact MainStep.main_releases step (sound_at initial n) held
  · intro n held
    have sound := sound_at initial n
    have inside := sound.synced.lock.mp held
    refine main_enabled sound ?_ ?_ ?_
    · intro there
      rw [there] at inside
      cases inside
    · intro next waiting
      rw [MainPoint.locked_outside inside] at waiting
      cases waiting
    · intro there
      rw [there] at inside
      cases inside

theorem thread_lets_go (fair : FairlyScheduled b) {n : ℕ}
    (held : (b.state n).col.lock = .collector) : ∃ m ≥ n, (b.state m).col.lock = .free := by
  refine lets_go (fun s => s.col.thread.heldFor) fair.thread ?_ ?_ held
  · intro n held
    obtain ⟨next, step, after⟩ := b.step n
    have kept := next.signalled_keeps (b.label n)
    rw [after, kept.lock, kept.heldFor]
    exact MainStep.thread_releases step (sound_at initial n) held
  · intro n held
    have inside := (sound_at initial n).locked.mp held
    refine thread_enabled ?_ ?_ ?_
    · intro there
      rw [there] at inside
      cases inside
    · intro deadline there
      rw [there] at inside
      cases inside
    · intro waiting
      rw [ThreadPoint.waits_outside inside] at waiting
      cases waiting

/-- The lock comes free again and again. -/
theorem lock_comes_free (fair : FairlyScheduled b) (n : ℕ) :
    ∃ m ≥ n, (b.state m).col.lock = .free := by
  cases held : (b.state n).col.lock with
  | free => exact ⟨n, le_rfl, held⟩
  | main => exact main_lets_go initial fair held
  | collector => exact thread_lets_go initial fair held

/-- What a thread comes nearer to it reaches, if it can go on while the lock is free. -/
theorem reaches_when_free (fair : FairlyScheduled b) {party : MainLabel → Bool}
    (fairly : b.StronglyFair fun label => party label = true) (Going : ℕ → Prop)
    (distance : ℕ → ℕ) {Goal : ℕ → Prop}
    (step : ∀ n, Going n → (∃ m ≥ n, Goal m) ∨ Going (n + 1) ∧ distance (n + 1) ≤ distance n ∧
      (party (b.label n) = true → distance (n + 1) < distance n))
    (able : ∀ n, Going n → (b.state n).col.lock = .free → (∃ m ≥ n, Goal m) ∨
      signalledProgram.Enabled (fun label => party label = true) (b.state n))
    {n : ℕ} (going : Going n) : ∃ m ≥ n, Goal m := by
  have kept : ∀ n, Going n → (∃ m ≥ n, Goal m) ∨ Going (n + 1) := by
    intro n going
    rcases step n going with reached | ⟨still, _⟩
    · exact .inl reached
    · exact .inr still
  have nears : b.Nears (fun label => party label = true) Going Goal distance := by
    refine ⟨?_, ?_, ?_⟩
    · intro n going
      rcases step n going with reached | ⟨still, near, _⟩
      · exact .inl reached
      · exact .inr ⟨still, near⟩
    · intro n going own
      rcases step n going with reached | ⟨_, _, closer⟩
      · exact .inl reached
      · exact .inr (closer own)
    · intro n going
      obtain ⟨m, later, free⟩ := lock_comes_free initial fair n
      rcases LabelledSystem.Behaviour.persists kept later going with reached | still
      · exact .inl reached
      · rcases able m still free with ⟨k, after, reached⟩ | able
        · exact .inl ⟨k, later.trans after, reached⟩
        · exact .inr ⟨m, later, able⟩
  exact fairly.reaches nears going

end

end KernelMonitor
