import KernelMonitor.FairProgram

/-! # Quitting

Q, SIGINT and SIGTERM only clear a flag. What is left of the program after that is at most
one more key, one prompt, one signal and one frame, and in a fair run it comes to its end,
with the collector thread joined.
-/

namespace KernelMonitor

open Library

/-! ## What is left of the main thread -/

/-- How many steps the main thread is at most from its end, once the flag is cleared. -/
def MainPoint.remaining : MainPoint → Nat
  | .finished => 0
  | .joining => 1
  | .returning .stop => 2
  | .inside .stop => 3
  | .calling .stop => 4
  | .testing => 5
  | .painted => 6
  | .painting => 7
  | .comparing => 8
  | .redraw => 9
  | .signalling _ _ | .returning _ => 10
  | .asking _ _ _ | .inside _ => 11
  | .found _ _ _ | .calling _ => 12
  | .finding _ _ => 13
  | .seeking _ _ => 14
  | .input => 15

theorem MainLoop.runCommand_remaining (s : MainLoop) (command : Command) :
    (s.runCommand command).main.remaining < 15 := by
  cases command with
  | enter | resume =>
      simp only [runCommand]
      split <;> simp [MainPoint.remaining]
  | signal action =>
      simp only [runCommand]
      split
      · simp [MainPoint.remaining]
      · split <;> simp [MainPoint.remaining]
  | _ => simp [runCommand, MainPoint.remaining]

theorem MainLoop.handleKey_remaining (s : MainLoop) (ch : Int) :
    (s.handleKey ch).main.remaining < 15 := by
  unfold handleKey
  cases commandOf ch with
  | none => simp [MainPoint.remaining]
  | some command => exact runCommand_remaining _ command

theorem MainLoop.runCommand_running (s : MainLoop) (command : Command) :
    (s.runCommand command).running = true → s.running = true := by
  cases command with
  | quit => exact fun going => by cases going
  | enter | resume =>
      simp only [runCommand]
      split <;> exact id
  | signal action =>
      simp only [runCommand]
      split
      · exact id
      · split <;> exact id
  | _ => exact id

theorem MainLoop.handleKey_running (s : MainLoop) (ch : Int) :
    (s.handleKey ch).running = true → s.running = true := by
  unfold handleKey
  cases commandOf ch with
  | none => exact id
  | some command => exact runCommand_running _ command

/-- Nothing sets the flag again. -/
theorem MainStep.quit_kept {s next : MainLoop} {label : MainLabel} (step : MainStep s label next)
    (quit : s.running = false) : next.running = false := by
  rw [← Bool.not_eq_true] at *
  intro going
  refine quit ?_
  cases step with
  | key there => exact s.handleKey_running _ going
  | interrupt => cases going
  | returned there step => cases ‹ApiCall› <;> exact going
  | looked there step => cases ‹Option Bytes› <;> exact going
  | confirm there =>
      unfold MainLoop.afterConfirm at going
      split at going <;> exact going
  | compare there =>
      unfold MainLoop.compareGenerations at going
      split at going <;> exact going
  | _ => exact going

/-- Every step of the main thread brings it nearer to its end. -/
theorem MainStep.remaining {s next : MainLoop} {label : MainLabel} (step : MainStep s label next)
    (quit : s.running = false) (own : label.ofMain = true) :
    next.main.remaining < s.main.remaining := by
  cases step with
  | background | interrupt => cases own
  | test there =>
      rw [there, quit]
      cases s.col.running <;> simp [MainPoint.remaining]
  | key there =>
      rw [there]
      exact s.handleKey_remaining _
  | lock waiting step =>
      cases there : s.main with
      | calling call =>
          rw [there] at waiting
          cases waiting
          cases call <;> simp [MainPoint.remaining]
      | seeking | redraw =>
          rw [there] at waiting
          cases waiting
          simp [MainPoint.remaining]
      | _ => rw [there] at waiting; cases waiting
  | call there step =>
      rw [there]
      cases ‹ApiCall› <;> simp [MainPoint.remaining]
  | returned there step =>
      rw [there]
      cases ‹ApiCall› <;> simp [MainPoint.remaining, MainLoop.afterCall]
  | looked there step =>
      rw [there]
      cases ‹Option Bytes› <;> simp [MainPoint.remaining, MainLoop.afterLookup]
  | confirm there =>
      rw [there]
      unfold MainLoop.afterConfirm
      split <;> simp [MainPoint.remaining]
  | compare there =>
      rw [there]
      unfold MainLoop.compareGenerations
      split <;> simp [MainPoint.remaining]
  | find there | kill there | refused there | frame there | skip there | release there
  | join there =>
      rw [there]
      simp [MainPoint.remaining, MainLoop.afterFind, MainLoop.report]

theorem MainStep.main_kept {s next : MainLoop} {label : MainLabel} (step : MainStep s label next)
    (other : label.ofMain = false) : next.main = s.main := by
  cases step <;> first | rfl | cases other

/-! ## Every finite run -/

def MainLabel.isKey : MainLabel → Bool
  | .key _ => true
  | _ => false

def MainLabel.isPrompt : MainLabel → Bool
  | .confirm _ _ _ => true
  | _ => false

def MainLabel.isKill : MainLabel → Bool
  | .kill _ _ => true
  | _ => false

def MainLabel.isFrame : MainLabel → Bool
  | .frame _ => true
  | _ => false

/-- After the flag is cleared, the labels of the main thread and what remains of it. -/
theorem quit_countdown {s t : MainLoop} {labels : List MainLabel}
    (run : mainSystem.Run s labels t) (quit : s.running = false) :
    t.running = false ∧
      labels.countP MainLabel.ofMain + t.main.remaining ≤ s.main.remaining := by
  refine run.induct (P := fun labels t => t.running = false ∧
    labels.countP MainLabel.ofMain + t.main.remaining ≤ s.main.remaining) ⟨quit, by simp⟩ ?_
  intro labels t label next _ known step
  obtain ⟨cleared, counted⟩ := known
  refine ⟨MainStep.quit_kept step cleared, ?_⟩
  rw [List.countP_append, List.countP_singleton]
  cases own : label.ofMain with
  | true =>
      have nearer := MainStep.remaining step cleared own
      simp only [if_true]
      omega
  | false =>
      rw [MainStep.main_kept step own]
      simpa using counted

/-- What the main thread does at one distance from its end only, it does once at most. -/
theorem quit_once {s t : MainLoop} {labels : List MainLabel} (run : mainSystem.Run s labels t)
    (quit : s.running = false) (kind : MainLabel → Bool) (distance : Nat)
    (there : ∀ s label next, MainStep s label next → kind label = true →
      label.ofMain = true ∧ s.main.remaining = distance) :
    labels.countP kind ≤ 1 := by
  have once := run.induct (P := fun labels t => t.running = false ∧
    (labels.countP kind = 0 ∨ labels.countP kind = 1 ∧ t.main.remaining < distance))
    ⟨quit, .inl rfl⟩ ?_
  · rcases once.2 with none | ⟨one, _⟩
    · exact none.le.trans (Nat.zero_le 1)
    · exact one.le
  · intro labels t label next _ known step
    obtain ⟨cleared, counted⟩ := known
    refine ⟨MainStep.quit_kept step cleared, ?_⟩
    rw [List.countP_append, List.countP_singleton]
    cases its : kind label with
    | true =>
        obtain ⟨own, here⟩ := there _ _ _ step its
        have nearer := MainStep.remaining step cleared own
        simp only [if_true]
        omega
    | false =>
        rw [if_neg Bool.false_ne_true, Nat.add_zero]
        rcases counted with none | ⟨one, past⟩
        · exact .inl none
        · refine .inr ⟨one, ?_⟩
          cases own : label.ofMain with
          | true => exact (MainStep.remaining step cleared own).trans past
          | false => rwa [MainStep.main_kept step own]

/-- Once the flag is cleared, by Q or by a signal, the main thread takes at most fifteen
    more steps, with at most one key, one prompt, one call of `kill()` and one frame. -/
theorem quit_leaves_little {s t : MainLoop} {labels : List MainLabel}
    (run : mainSystem.Run s labels t) (quit : s.running = false) :
    labels.countP MainLabel.ofMain ≤ 15 ∧ labels.countP MainLabel.isKey ≤ 1 ∧
      labels.countP MainLabel.isPrompt ≤ 1 ∧ labels.countP MainLabel.isKill ≤ 1 ∧
      labels.countP MainLabel.isFrame ≤ 1 := by
  refine ⟨?_, ?_, ?_, ?_, ?_⟩
  · have counted := (quit_countdown run quit).2
    have most : s.main.remaining ≤ 15 := by
      cases s.main with
      | calling call | inside call | returning call => cases call <;> simp [MainPoint.remaining]
      | _ => simp [MainPoint.remaining]
    omega
  · refine quit_once run quit _ 15 fun s label next step kind => ?_
    cases step with
    | key there => exact ⟨rfl, by rw [there]; rfl⟩
    | _ => cases kind
  · refine quit_once run quit _ 11 fun s label next step kind => ?_
    cases step with
    | confirm there => exact ⟨rfl, by rw [there]; rfl⟩
    | _ => cases kind
  · refine quit_once run quit _ 10 fun s label next step kind => ?_
    cases step with
    | kill there => exact ⟨rfl, by rw [there]; rfl⟩
    | _ => cases kind
  · refine quit_once run quit _ 7 fun s label next step kind => ?_
    cases step with
    | frame there => exact ⟨rfl, by rw [there]; rfl⟩
    | _ => cases kind

/-- SIGTERM arrives while `getch` waits; K is pressed over PID 3, and y. -/
theorem quit_leaves_little_example :
    ∃ labels t, mainSystem.Run { exampleInput with running := false } labels t ∧
      .kill ⟨3, .sigTerm⟩ (.ok ()) ∈ labels ∧ labels.countP MainLabel.isKill ≤ 1 := by
  have selected : exampleInput.ui.selectedPid = 3 := by decide +kernel
  have present : (exampleInput.col.proc.find 3).isSome = true := by decide +kernel
  have view : exampleInput.ui.viewMode = .processList := by decide +kernel
  have agrees : exampleInput.ui.confirm true 121 = true := by decide +kernel
  obtain ⟨info, found⟩ := Option.isSome_iff_exists.mp present
  have keyed : ∀ ui col, ui.viewMode = .processList → ui.selectedPid = 3 →
      ui.confirm true 121 = true → col.lock = .free → col.proc.find 3 = some info →
      ∃ since t, mainSystem.Run { exampleInput with ui := ui, col := col, running := false }
        (.key 107 :: (since ++ [.kill ⟨3, .sigTerm⟩ (.ok ())])) t := by
    intro ui col view selected agrees free found
    exact terminate_run rfl free view selected (by decide) found agrees
  obtain ⟨since, t, run⟩ := keyed _ _ view selected agrees rfl found
  exact ⟨_, t, run, by simp, (quit_leaves_little run rfl).2.2.2.1⟩

/-! ## What is left of the thread -/

/-- How many steps a sweep is at most from its end. -/
def SweepPoint.left (w : Sweep) (m : ProcessMonitor) : SweepPoint → Nat
  | .start => (collectBegin w m).2.pids.items.length + 3
  | .loop _ rest => rest.length + 2
  | .finish => 1
  | .done => 0

/-- How many steps the thread is at most from its exit, or from its next sweep. -/
def ThreadPoint.left (m : ProcessMonitor) : ThreadPoint → Nat
  | .exited => 0
  | .leaving => 1
  | .deciding => 2
  | .testing => 3
  | .starting | .woken _ | .bumping => 4
  | .entry | .asleep _ | .publishing => 5
  | .updating => 6
  | .sweeping w point => point.left w m + 7
  | .stamping w => SweepPoint.start.left w m + 8

theorem sweepStep_left {w : Sweep} {point next : SweepPoint} {m after : ProcessMonitor}
    (step : sweepStep w (point, m) = some (next, after)) :
    next.left w after < point.left w m := by
  cases point with
  | start =>
      cases step
      exact Nat.lt_succ_self _
  | loop seconds rest =>
      cases rest with
      | nil =>
          cases step
          simp [SweepPoint.left]
      | cons pid rest =>
          simp only [sweepStep] at step
          cases reserved : incomingReserve (w.growIncoming pid) m with
          | none =>
              rw [reserved] at step
              cases step
              simp [SweepPoint.left]
          | some grown =>
              rw [reserved] at step
              cases step
              simp [SweepPoint.left]
  | finish =>
      cases step
      simp [SweepPoint.left]
  | done => cases step

/-- Every step of the thread brings it nearer, but for those that begin a sweep or a wait. -/
theorem CollectorStep.left {c next : Collector} {label : CollectorLabel}
    (step : CollectorStep c label next) (own : label.byMain = false) (moves : label.isTick = false)
    (noSweep : ∀ w, label ≠ .startSweep w) (noWait : label ≠ .sleep) :
    next.thread.left next.proc < c.thread.left c.proc := by
  cases step with
  | tick => cases moves
  | acquire | release | request | setInterval | stop | join => cases own
  | startSweep => exact absurd rfl (noSweep _)
  | sleep => exact absurd rfl noWait
  | sweep there step =>
      rw [there]
      have nearer := sweepStep_left step
      simp only [ThreadPoint.left]
      omega
  | reacquire there free =>
      rw [there]
      cases ‹Bool› <;> simp [ThreadPoint.left]
  | readClock there | lock there | wake there | timeout there | leaveWait there | giveUp there
  | stamp there | relock there | updateSys there | publish there | bump there | unlock there =>
      rw [there]
      simp [ThreadPoint.left, SweepPoint.left]

/-- Nobody else moves the thread or touches its monitor. -/
theorem CollectorStep.thread_kept {c next : Collector} {label : CollectorLabel}
    (step : CollectorStep c label next) (other : label.byMain = true ∨ label.isTick = true) :
    next.thread = c.thread ∧ next.proc = c.proc := by
  cases step <;> first | exact ⟨rfl, rfl⟩ | rcases other with other | other <;> cases other

theorem MainStep.thread_kept {s next : MainLoop} {label : MainLabel} (step : MainStep s label next)
    (other : ∀ inner, label ≠ .background inner) :
    next.col.thread = s.col.thread ∧ next.col.proc = s.col.proc := by
  have seen := MainStep.collector step
  cases known : label.collector? with
  | none =>
      rw [known] at seen
      exact ⟨congrArg _ seen, congrArg _ seen⟩
  | some inner =>
      rw [known] at seen
      refine CollectorStep.thread_kept seen (.inl ?_)
      cases label with
      | background => exact absurd rfl (other _)
      | call api => cases api <;> cases known <;> rfl
      | lock | unlock | join => cases known; rfl
      | _ => cases known

/-- A step of the thread sends no signal. -/
theorem signalled_own {label : CollectorLabel} (own : label.byMain = false) (c : Collector) :
    c.signalled label = c := by
  cases label <;> first | rfl | cases own

/-- The thread is not further away after a step, and nearer after one of its own. -/
structure Nearer (label : MainLabel) (before after : Collector) : Prop where
  near : after.thread.left after.proc ≤ before.thread.left before.proc
  own : label.ofThread = true → after.thread.left after.proc < before.thread.left before.proc

theorem Nearer.still {label : MainLabel} {before after : Collector}
    (kept : after.thread = before.thread ∧ after.proc = before.proc)
    (other : label.ofThread = false) : Nearer label before after := by
  have same : after.thread.left after.proc = before.thread.left before.proc := by
    rw [kept.1, kept.2]
  refine ⟨same.le, fun mine => ?_⟩
  rw [other] at mine
  cases mine

theorem thread_nearer {s after : MainLoop} {label : MainLabel}
    (step : signalledProgram.Step s label after) (awake : ∀ deadline, s.col.thread ≠ .asleep deadline)
    (noSweep : ∀ w, label ≠ .background (.startSweep w)) (noWait : label ≠ .background .sleep) :
    Nearer label s.col after.col := by
  obtain ⟨next, step, rfl⟩ := step
  by_cases background : ∃ inner, label = .background inner
  · obtain ⟨inner, rfl⟩ := background
    cases step with
    | background own step =>
        simp only [MainLoop.signalled, MainLabel.collector?, signalled_own own]
        cases tick : inner.isTick with
        | true =>
            refine .still (step.thread_kept (.inr tick)) ?_
            cases inner <;> first | rfl | cases tick
        | false =>
            have nearer := step.left own tick (fun w same => noSweep w (same ▸ rfl))
              fun same => noWait (same ▸ rfl)
            exact ⟨nearer.le, fun _ => nearer⟩
  · have kept := step.thread_kept fun inner same => background ⟨inner, same⟩
    have same : (next.signalled label).col = next.col := by
      rcases (next.signalled_keeps label).col with same | ⟨deadline, asleep, _⟩
      · exact same
      · exact absurd (kept.1.symm.trans asleep) (awake deadline)
    rw [same]
    refine .still kept ?_
    cases label with
    | background inner => exact absurd ⟨inner, rfl⟩ background
    | _ => rfl

/-- Where the main thread waits for the other it can only join it. -/
theorem MainStep.joining {s next : MainLoop} {label : MainLabel} (step : MainStep s label next)
    (there : s.main = .joining) :
    next.main = .finished ∨ label.ofMain = false ∧ next.main = .joining := by
  cases step with
  | join => exact .inl rfl
  | background | interrupt => exact .inr ⟨rfl, there⟩
  | lock waiting =>
      rw [there] at waiting
      cases waiting
  | test here | key here | call here | returned here | find here | looked here | confirm here
  | kill here | refused here | compare here | frame here | skip here | release here =>
      rw [there] at here
      cases here

theorem MainStep.exited {s next : MainLoop} {label : MainLabel} (step : MainStep s label next)
    (exited : s.col.thread = .exited) : next.col.thread = .exited := by
  have seen := MainStep.collector step
  cases known : label.collector? with
  | none =>
      rw [known] at seen
      rw [seen]
      exact exited
  | some inner =>
      rw [known] at seen
      exact CollectorStep.exited seen exited

/-! ## Fair runs -/

section

variable {b : signalledProgram.Behaviour} (initial : signalledProgram.Init (b.state 0))
include initial

/-- The main thread comes to wait for the other. -/
theorem main_comes_to_join (fair : FairlyScheduled b) {n : ℕ}
    (quit : (b.state n).running = false) :
    ∃ m ≥ n, (b.state m).main = .joining ∨ (b.state m).main = .finished := by
  refine reaches_when_free initial fair fair.main (fun n => (b.state n).running = false)
    (fun n => (b.state n).main.remaining) ?_ ?_ quit
  · intro n quit
    obtain ⟨next, step, after⟩ := b.step n
    have kept := next.signalled_keeps (b.label n)
    rw [after, kept.main, kept.running]
    refine .inr ⟨step.quit_kept quit, ?_, step.remaining quit⟩
    cases own : (b.label n).ofMain with
    | true => exact (step.remaining quit own).le
    | false => exact (congrArg _ (step.main_kept own)).le
  · intro n quit free
    by_cases there : (b.state n).main = .joining ∨ (b.state n).main = .finished
    · exact .inl ⟨n, le_rfl, there⟩
    · rw [not_or] at there
      exact .inr (main_enabled (sound_at initial n) there.2 (fun _ _ => free)
        fun joins => absurd joins there.1)

/-- What a step leaves of a thread that is waited for. -/
theorem joining_step {n : ℕ} (there : (b.state n).main = .joining) :
    ((b.state (n + 1)).main = .joining ∨ (b.state (n + 1)).main = .finished) ∧
      Nearer (b.label n) (b.state n).col (b.state (n + 1)).col := by
  have sound := sound_at initial n
  have stopping : (b.state n).col.stopping = true := by
    rw [sound.orderly.stopping, there]
    rfl
  refine ⟨?_, thread_nearer (b.step n) ?_ ?_ ?_⟩
  · obtain ⟨next, step, after⟩ := b.step n
    rw [after, (next.signalled_keeps (b.label n)).main]
    rcases step.joining there with finished | ⟨_, joining⟩
    · exact .inr finished
    · exact .inl joining
  · intro deadline asleep
    have called := (sound.undisturbed deadline asleep).1
    rw [stopping] at called
    cases called
  · intro w same
    obtain ⟨next, step, _⟩ := b.step n
    rw [same] at step
    cases step with
    | background _ step =>
        cases step with
        | startSweep _ going =>
            rw [stopping] at going
            cases going
  · intro same
    obtain ⟨next, step, _⟩ := b.step n
    rw [same] at step
    cases step with
    | background _ step =>
        cases step with
        | sleep _ going =>
            rw [stopping] at going
            cases going

/-- The thread that is waited for exits. -/
theorem thread_comes_to_exit (fair : FairlyScheduled b) {n : ℕ}
    (there : (b.state n).main = .joining) :
    ∃ m ≥ n, (b.state m).col.thread = .exited ∧
      ((b.state m).main = .joining ∨ (b.state m).main = .finished) := by
  have exits : ∀ n, (b.state n).main = .joining ∨ (b.state n).main = .finished →
      (b.state n).main = .joining ∧ (b.state n).col.thread ≠ .exited ∨
        ∃ m ≥ n, (b.state m).col.thread = .exited ∧
          ((b.state m).main = .joining ∨ (b.state m).main = .finished) := by
    intro n out
    by_cases exited : (b.state n).col.thread = .exited
    · exact .inr ⟨n, le_rfl, exited, out⟩
    · rcases out with joining | finished
      · exact .inl ⟨joining, exited⟩
      · exact absurd ((sound_at initial n).orderly.exited finished) exited
  rcases exits n (.inl there) with going | reached
  · refine reaches_when_free initial fair fair.thread
      (fun n => (b.state n).main = .joining ∧ (b.state n).col.thread ≠ .exited)
      (fun n => (b.state n).col.thread.left (b.state n).col.proc) ?_ ?_ going
    · rintro n ⟨there, going⟩
      obtain ⟨out, nearer⟩ := joining_step initial there
      rcases exits (n + 1) out with still | ⟨m, later, reached⟩
      · exact .inr ⟨still, nearer.near, nearer.own⟩
      · exact .inl ⟨m, Nat.le_of_succ_le later, reached⟩
    · rintro n ⟨there, going⟩ free
      have sound := sound_at initial n
      refine .inr (thread_enabled going ?_ fun _ => free)
      intro deadline asleep
      have called := (sound.undisturbed deadline asleep).1
      rw [sound.orderly.stopping, there] at called
      cases called
  · exact reached

/-- The main thread joins a thread that has exited. -/
theorem main_comes_to_finish (fair : FairlyScheduled b) {n : ℕ}
    (there : (b.state n).main = .joining) (exited : (b.state n).col.thread = .exited) :
    ∃ m ≥ n, (b.state m).main = .finished := by
  refine reaches_when_free initial fair fair.main
    (fun n => (b.state n).main = .joining ∧ (b.state n).col.thread = .exited) (fun _ => 0) ?_ ?_
    ⟨there, exited⟩
  · rintro n ⟨there, exited⟩
    obtain ⟨next, step, after⟩ := b.step n
    have kept := next.signalled_keeps (b.label n)
    have gone := step.exited exited
    have same : (b.state (n + 1)).col = next.col := by
      rw [after]
      rcases kept.col with same | ⟨_, asleep, _⟩
      · exact same
      · rw [gone] at asleep
        cases asleep
    rcases step.joining there with finished | ⟨other, joining⟩
    · exact .inl ⟨n + 1, Nat.le_succ n, by rw [after, kept.main, finished]⟩
    · refine .inr ⟨⟨by rw [after, kept.main, joining], same ▸ gone⟩, le_rfl, fun own => ?_⟩
      rw [own] at other
      cases other
  · rintro n ⟨there, exited⟩ free
    refine .inr (main_enabled (sound_at initial n) ?_ (fun _ _ => free) fun _ => exited)
    rw [there]
    simp

omit initial in
/-- In every fair run, whatever the collector is doing when Q is pressed or SIGINT or SIGTERM
    arrives, the program comes to its end, and with its collector thread joined. A prompt that
    is open is answered, as the run is fair. -/
theorem quit_finishes (initial : signalledProgram.Init (b.state 0)) (fair : FairlyScheduled b)
    {n : ℕ} (quit : (b.state n).running = false) :
    ∃ m ≥ n, (b.state m).main = .finished ∧ (b.state m).col.thread = .exited := by
  have finishes : ∃ m ≥ n, (b.state m).main = .finished := by
    obtain ⟨m, later, joining | finished⟩ := main_comes_to_join initial fair quit
    · obtain ⟨k, after, exited, joining | finished⟩ := thread_comes_to_exit initial fair joining
      · obtain ⟨i, last, finished⟩ := main_comes_to_finish initial fair joining exited
        exact ⟨i, later.trans (after.trans last), finished⟩
      · exact ⟨k, later.trans after, finished⟩
    · exact ⟨m, later, finished⟩
  obtain ⟨m, later, finished⟩ := finishes
  exact ⟨m, later, finished, (sound_at initial m).orderly.exited finished⟩

end

theorem finished_stuck {s : MainLoop} (there : s.main = .finished) :
    ¬ signalledProgram.Enabled (fun label => label.ofMain = true) s := by
  rintro ⟨label, _, own, next, step, _⟩
  cases step with
  | background | interrupt => cases own
  | lock waiting =>
      rw [there] at waiting
      cases waiting
  | test here | key here | call here | returned here | find here | looked here | confirm here
  | kill here | refused here | compare here | frame here | skip here | release here | join here =>
      rw [there] at here
      cases here

theorem exited_stuck {s : MainLoop} (there : s.col.thread = .exited) :
    ¬ signalledProgram.Enabled (fun label => label.ofThread = true) s := by
  rintro ⟨label, _, mine, next, step, _⟩
  cases step with
  | background own step =>
      cases step with
      | tick => cases mine
      | acquire | release | request | setInterval | stop | join => cases own
      | readClock here | lock here | sleep here | wake here | timeout here | reacquire here
      | leaveWait here | giveUp here | startSweep here | stamp here | sweep here | relock here
      | updateSys here | publish here | bump here | unlock here =>
          rw [there] at here
          cases here
  | _ => cases mine

/-- SIGINT arrives before the first key; the thread has not even begun. -/
theorem quit_finishes_example :
    ∃ b : signalledProgram.Behaviour, b.label 0 = .interrupt ∧
      ∃ m ≥ 1, (b.state m).main = .finished ∧ (b.state m).col.thread = .exited := by
  let s : MainLoop := { exampleMain with running := false }
  let t : MainLoop := { s with
    col := { s.col with stopping := true, running := false, thread := .exited, last := s.col.clock }
    main := .finished }
  have run : signalledProgram.Run s [.test, .lock, .call .stop, .unlock, .background .readClock,
      .background .lock, .background .leaveWait, .background .giveUp, .background .unlock, .join] t :=
    .cons ⟨_, .test rfl, rfl⟩ <| .cons ⟨_, .lock rfl (.acquire rfl), rfl⟩ <|
      .cons ⟨_, .call rfl (.stop rfl), rfl⟩ <| .cons ⟨_, .returned rfl (.release rfl), rfl⟩ <|
      .cons ⟨_, .background rfl (.readClock rfl), rfl⟩ <|
      .cons ⟨_, .background rfl (.lock rfl rfl), rfl⟩ <|
      .cons ⟨_, .background rfl (.leaveWait rfl (.inl rfl)), rfl⟩ <|
      .cons ⟨_, .background rfl (.giveUp rfl rfl), rfl⟩ <|
      .cons ⟨_, .background rfl (.unlock rfl), rfl⟩ <|
      .single ⟨_, .join rfl (.join (by decide) rfl rfl), rfl⟩
  have stays : signalledProgram.Step t (.background (.tick t.col.clock)) t :=
    ⟨_, .background rfl (.tick (.inr ⟨rfl, le_rfl⟩)), rfl⟩
  obtain ⟨b, begins, _, ended⟩ := (LabelledSystem.Behaviour.constant stays).exists_before run
  have first : signalledProgram.Step exampleMain .interrupt (b.state 0) :=
    begins ▸ ⟨_, .interrupt, rfl⟩
  have there : ∀ m ≥ 11, (b.cons first).state m = t := by
    intro m later
    obtain ⟨k, rfl⟩ := Nat.exists_eq_add_of_le later
    have last := (ended k).1
    rw [Nat.add_right_comm 10 1 k]
    exact last
  have main : ∀ m ≥ 11, ¬ signalledProgram.Enabled (fun label => label.ofMain = true)
      ((b.cons first).state m) := by
    intro m later
    rw [there m later]
    exact finished_stuck rfl
  have thread : ∀ m ≥ 11, ¬ signalledProgram.Enabled (fun label => label.ofThread = true)
      ((b.cons first).state m) := by
    intro m later
    rw [there m later]
    exact exited_stuck rfl
  have fair : FairlyScheduled (b.cons first) := ⟨.of_stuck main, .of_stuck thread⟩
  have quit : ((b.cons first).state 1).running = false := (congrArg _ begins).trans rfl
  exact ⟨b.cons first, rfl, quit_finishes ⟨_, _, _, _, _, _, _, _, _, rfl⟩ fair quit⟩

end KernelMonitor
