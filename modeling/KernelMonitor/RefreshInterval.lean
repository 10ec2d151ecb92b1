import KernelMonitor.Library.Simulation
import KernelMonitor.SignalTargets

/-! # The pace of the sweeps

The interval that + and - adjust reaches the collector through its lock, and the deadlines
of its waits are computed from it. Whatever the keys, and whenever a change meets a
timeout, the deadlines are good times and the sweeps stay half a second apart.
-/

namespace KernelMonitor

open Library

/-! ## Times -/

/-- A time as the clock gives it and a wait takes it. -/
structure Timespec.WellFormed (t : Timespec) : Prop where
  low : 0 ≤ t.nsec
  high : t.nsec < 1000000000

theorem addMs_wellFormed {t : Timespec} (formed : t.WellFormed) {ms : Int} (positive : 0 ≤ ms) :
    (addMs t ms).WellFormed := by
  obtain ⟨low, high⟩ := formed
  have part := Int.tmod_eq_emod_of_nonneg (b := 1000) positive
  unfold addMs
  dsimp only
  split <;> constructor <;> dsimp only <;> omega

/-- The milliseconds that `add_ms` adds are those between the two times. -/
theorem clockDiffMs_addMs (t : Timespec) (ms : Int) : clockDiffMs t (addMs t ms) = ms := by
  have whole := Int.mul_tdiv_add_tmod ms 1000
  unfold clockDiffMs addMs
  dsimp only
  split
  · have nsec : t.nsec + ms.tmod 1000 * 1000000 - 1000000000 - t.nsec =
        (ms.tmod 1000 - 1000) * 1000000 := by ring
    rw [nsec, Int.mul_tdiv_cancel _ (by decide)]
    linarith
  · have nsec : t.nsec + ms.tmod 1000 * 1000000 - t.nsec = ms.tmod 1000 * 1000000 := by ring
    rw [nsec, Int.mul_tdiv_cancel _ (by decide)]
    linarith

theorem clockDiffMs_mono {start a b : Timespec} (begun : start.WellFormed) (first : a.WellFormed)
    (second : b.WellFormed) (later : a.NotAfter b) : clockDiffMs start a ≤ clockDiffMs start b := by
  obtain ⟨startLow, startHigh⟩ := begun
  obtain ⟨firstLow, firstHigh⟩ := first
  obtain ⟨secondLow, secondHigh⟩ := second
  have one : Int.sign 1000000 = 1 := rfl
  unfold clockDiffMs
  rw [Int.tdiv_eq_ediv, Int.tdiv_eq_ediv, one]
  unfold Timespec.NotAfter at later
  split <;> split <;> omega

/-! ## The interval -/

/-- What + and - leave in `refresh_interval`. -/
structure ValidInterval (ms : Int) : Prop where
  low : minInterval ≤ ms
  high : ms ≤ maxInterval
  whole : 500 ∣ ms

theorem ValidInterval.slower {ms : Int} (valid : ValidInterval ms) :
    ValidInterval (min (ms + 500) maxInterval) := by
  obtain ⟨low, high, whole⟩ := valid
  unfold minInterval at low
  unfold maxInterval at high
  refine ⟨?_, ?_, ?_⟩ <;> simp only [minInterval, maxInterval] <;> omega

theorem ValidInterval.faster {ms : Int} (valid : ValidInterval ms) :
    ValidInterval (max (ms - 500) minInterval) := by
  obtain ⟨low, high, whole⟩ := valid
  unfold minInterval at low
  unfold maxInterval at high
  refine ⟨?_, ?_, ?_⟩ <;> simp only [minInterval, maxInterval] <;> omega

theorem ValidInterval.positive {ms : Int} (valid : ValidInterval ms) : 0 ≤ ms := by
  have low := valid.low
  unfold minInterval at low
  omega

/-- The interval after a key. -/
def adjusted (interval ch : Int) : Int :=
  match commandOf ch with
  | some .slower => min (interval + 500) maxInterval
  | some .faster => max (interval - 500) minInterval
  | _ => interval

def MainLabel.pressed? : MainLabel → Option Int
  | .key ch => some ch
  | _ => none

/-- The interval after the keys of a run. -/
def intervalAfter (trace : List MainLabel) : Int :=
  (trace.filterMap MainLabel.pressed?).foldl adjusted 2000

theorem intervalAfter_snoc (trace : List MainLabel) (label : MainLabel) :
    intervalAfter (trace ++ [label]) =
      match label.pressed? with
      | some ch => adjusted (intervalAfter trace) ch
      | none => intervalAfter trace := by
  unfold intervalAfter
  rw [List.filterMap_append, List.foldl_append]
  cases pressed : label.pressed? <;> simp [pressed]

/-! ## The two copies -/

/-- The argument of a call of `km_collector_set_interval` that has not returned. -/
def MainPoint.argument? : MainPoint → Option Int
  | .calling (.setInterval ms) | .inside (.setInterval ms) | .returning (.setInterval ms) => some ms
  | _ => none

/-- Before the call has stored its argument. -/
def MainPoint.storing : MainPoint → Bool
  | .calling (.setInterval _) | .inside (.setInterval _) => true
  | _ => false

/-- `refresh_interval` and `interval_ms` agree but for a call on its way. -/
structure MainLoop.Agreed (s : MainLoop) : Prop where
  valid : ValidInterval s.refreshInterval
  collector : ValidInterval s.col.intervalMs
  argument : ∀ ms, s.main.argument? = some ms → ms = s.refreshInterval
  same : s.main.storing = false → s.col.intervalMs = s.refreshInterval

theorem CollectorStep.interval_kept {c next : Collector} {label : CollectorLabel}
    (step : CollectorStep c label next) (other : ∀ ms, label ≠ .setInterval ms) :
    next.intervalMs = c.intervalMs := by
  cases step with
  | setInterval held => exact absurd rfl (other _)
  | _ => rfl

namespace MainLoop.Agreed

variable {s next : MainLoop}

/-- A step that leaves the copies alone, from one place to another. -/
theorem moved (agreed : s.Agreed) (interval : next.refreshInterval = s.refreshInterval)
    (collector : next.col.intervalMs = s.col.intervalMs)
    (argument : ∀ ms, next.main.argument? = some ms → s.main.argument? = some ms)
    (storing : next.main.storing = s.main.storing) : next.Agreed where
  valid := interval ▸ agreed.valid
  collector := collector ▸ agreed.collector
  argument ms here := by
    rw [interval]
    exact agreed.argument ms (argument ms here)
  same clear := by
    rw [interval, collector]
    exact agreed.same (storing ▸ clear)

/-- A step that is no part of a call. -/
theorem elsewhere (agreed : s.Agreed) (interval : next.refreshInterval = s.refreshInterval)
    (collector : next.col.intervalMs = s.col.intervalMs) (clear : s.main.storing = false)
    (outside : next.main.argument? = none) (cleared : next.main.storing = false) : next.Agreed :=
  agreed.moved interval collector (fun ms here => by rw [outside] at here; cases here)
    (cleared.trans clear.symm)

/-- + and - begin a call with the new interval. -/
theorem adjust (agreed : s.Agreed) {interval : Int} (valid : ValidInterval interval) :
    MainLoop.Agreed { s with
      refreshInterval := interval
      main := .calling (.setInterval interval) } where
  valid := valid
  collector := agreed.collector
  argument _ here := (Option.some.inj here).symm
  same clear := by cases clear

theorem runCommand (agreed : s.Agreed) (clear : s.main.storing = false) (command : Command) :
    (s.runCommand command).Agreed := by
  cases command with
  | slower => exact agreed.adjust agreed.valid.slower
  | faster => exact agreed.adjust agreed.valid.faster
  | enter =>
      simp only [MainLoop.runCommand]
      split <;> exact agreed.elsewhere rfl rfl clear rfl rfl
  | signal action =>
      simp only [MainLoop.runCommand]
      split
      · exact agreed.elsewhere rfl rfl clear rfl rfl
      · split <;> exact agreed.elsewhere rfl rfl clear rfl rfl
  | resume =>
      simp only [MainLoop.runCommand]
      split <;> exact agreed.elsewhere rfl rfl clear rfl rfl
  | _ => exact agreed.elsewhere rfl rfl clear rfl rfl

theorem handleKey (agreed : s.Agreed) (clear : s.main.storing = false) (ch : Int) :
    (s.handleKey ch).Agreed := by
  unfold MainLoop.handleKey
  cases commandOf ch with
  | none => exact agreed.elsewhere rfl rfl clear rfl rfl
  | some command =>
      have noted : MainLoop.Agreed { s with needsRedraw := true } :=
        agreed.moved rfl rfl (fun _ here => here) rfl
      exact noted.runCommand clear command

end MainLoop.Agreed

theorem MainStep.agreed {s next : MainLoop} {label : MainLabel} (step : MainStep s label next)
    (agreed : s.Agreed) : next.Agreed := by
  cases step with
  | background own step =>
      have kept := step.interval_kept fun ms same => by rw [same] at own; cases own
      exact agreed.moved rfl kept (fun _ here => here) rfl
  | interrupt => exact agreed.moved rfl rfl (fun _ here => here) rfl
  | test there =>
      refine agreed.elsewhere rfl rfl (by rw [there]; rfl) ?_ ?_ <;> dsimp only <;> split <;>
        (try split) <;> rfl
  | key there => exact agreed.handleKey (by rw [there]; rfl) _
  | lock waiting step =>
      have kept := step.interval_kept fun _ => by simp
      cases there : s.main with
      | calling call =>
          rw [there] at waiting
          cases waiting
          refine agreed.moved rfl kept (fun ms here => ?_) ?_ <;> rw [there]
          · cases call <;> exact here
          · cases call <;> rfl
      | seeking | redraw =>
          rw [there] at waiting
          cases waiting
          exact agreed.elsewhere rfl kept (by rw [there]; rfl) rfl rfl
      | _ => rw [there] at waiting; cases waiting
  | @call call col there step =>
      cases call with
      | setInterval ms =>
          have same := agreed.argument ms (by rw [there]; rfl)
          cases step
          exact ⟨agreed.valid, same ▸ agreed.valid, fun _ here => (Option.some.inj here) ▸ same,
            fun _ => same⟩
      | requestRefresh | stop =>
          have kept := step.interval_kept fun _ => by simp [ApiCall.label]
          exact agreed.elsewhere rfl kept (by rw [there]; rfl) rfl rfl
  | @returned call col there step =>
      have kept := step.interval_kept fun _ => by simp
      cases call <;> exact agreed.elsewhere rfl kept (by rw [there]; rfl) rfl rfl
  | find there => exact agreed.elsewhere rfl rfl (by rw [there]; rfl) rfl rfl
  | looked there step =>
      have kept := step.interval_kept fun _ => by simp
      cases ‹Option Bytes› <;> exact agreed.elsewhere rfl kept (by rw [there]; rfl) rfl rfl
  | confirm there =>
      unfold MainLoop.afterConfirm
      split <;> exact agreed.elsewhere rfl rfl (by rw [there]; rfl) rfl rfl
  | compare there =>
      unfold MainLoop.compareGenerations
      split <;> exact agreed.elsewhere rfl rfl (by rw [there]; rfl) rfl rfl
  | release there step | join there step =>
      have kept := step.interval_kept fun _ => by simp
      exact agreed.elsewhere rfl kept (by rw [there]; rfl) rfl rfl
  | kill there | refused there | frame there | skip there =>
      exact agreed.elsewhere rfl rfl (by rw [there]; rfl) rfl rfl

/-- A key changes the interval as `adjusted` does. -/
theorem MainLoop.handleKey_interval (s : MainLoop) (ch : Int) :
    (s.handleKey ch).refreshInterval = adjusted s.refreshInterval ch := by
  unfold MainLoop.handleKey adjusted
  cases commandOf ch with
  | none => rfl
  | some command =>
      cases command with
      | enter | resume =>
          simp only [MainLoop.runCommand]
          split <;> rfl
      | signal action =>
          simp only [MainLoop.runCommand]
          split
          · rfl
          · split <;> rfl
      | _ => rfl

theorem MainStep.interval {s next : MainLoop} {label : MainLabel} (step : MainStep s label next) :
    next.refreshInterval =
      match label.pressed? with
      | some ch => adjusted s.refreshInterval ch
      | none => s.refreshInterval := by
  cases step with
  | key there => exact s.handleKey_interval _
  | returned there step => cases ‹ApiCall› <;> rfl
  | looked there step => cases ‹Option Bytes› <;> rfl
  | confirm there =>
      simp only [MainLabel.pressed?, MainLoop.afterConfirm]
      split <;> rfl
  | compare there =>
      simp only [MainLabel.pressed?, MainLoop.compareGenerations]
      split <;> rfl
  | _ => rfl

/-! ## The deadlines -/

/-- What the times in the collector have to do with each other. -/
structure Collector.Timed (c : Collector) : Prop where
  clock : c.clock.WellFormed
  last : c.last.WellFormed
  deadline : ∀ deadline, c.thread = .asleep deadline →
    deadline.WellFormed ∧ ValidInterval (clockDiffMs c.last deadline)
  waited : c.thread = .woken true ∨ c.thread = .deciding →
    c.stopping = true ∨ c.refreshRequested = true ∨ minInterval ≤ clockDiffMs c.last c.clock

/-- A thread that neither sleeps nor has just waited. -/
theorem Collector.Timed.busy {c : Collector} (clock : c.clock.WellFormed) (last : c.last.WellFormed)
    (awake : ∀ deadline, c.thread ≠ .asleep deadline)
    (other : ¬ (c.thread = .woken true ∨ c.thread = .deciding)) : c.Timed :=
  ⟨clock, last, fun deadline there => absurd there (awake deadline), fun out => absurd out other⟩

theorem CollectorStep.timed {c next : Collector} {label : CollectorLabel}
    (step : CollectorStep c label next) (interval : ValidInterval c.intervalMs)
    (ticks : ∀ now, label = .tick now → now.WellFormed) (timed : c.Timed) : next.Timed := by
  obtain ⟨clock, last, deadline, waited⟩ := timed
  cases step with
  | tick later =>
      refine ⟨ticks _ rfl, last, deadline, fun out => ?_⟩
      rcases waited out with stopped | asked | past
      · exact .inl stopped
      · exact .inr (.inl asked)
      · exact .inr (.inr (past.trans (clockDiffMs_mono last clock (ticks _ rfl) later)))
  | acquire | release | join | setInterval => exact ⟨clock, last, deadline, waited⟩
  | request => exact ⟨clock, last, deadline, fun _ => .inr (.inl rfl)⟩
  | stop => exact ⟨clock, last, deadline, fun _ => .inl rfl⟩
  | sleep there going quiet =>
      refine ⟨clock, last, fun _ here => ?_, by simp⟩
      obtain rfl := ThreadPoint.asleep.inj here
      exact ⟨addMs_wellFormed last interval.positive, by rwa [clockDiffMs_addMs]⟩
  | timeout there due =>
      obtain ⟨formed, valid⟩ := deadline _ there
      refine ⟨clock, last, by simp, fun _ => .inr (.inr ?_)⟩
      exact valid.low.trans (clockDiffMs_mono last formed clock due)
  | @reacquire timedOut there free =>
      cases timedOut with
      | false => exact .busy clock last (by simp) (by simp)
      | true => exact ⟨clock, last, by simp, fun _ => waited (.inl there)⟩
  | leaveWait there called =>
      refine ⟨clock, last, by simp, fun _ => ?_⟩
      rcases called with stopped | asked
      · exact .inl stopped
      · exact .inr (.inl asked)
  | readClock | stamp => exact .busy clock clock (by simp) (by simp)
  | _ => exact .busy clock last (by simp) (by simp)

/-! ## Runs -/

/-- The clock answers with good times. -/
def GoodClock : MainLoop → MainLabel → MainLoop → Prop := fun _ label _ =>
  ∀ now, label = .background (.tick now) → now.WellFormed

theorem MainStep.timed {s next : MainLoop} {label : MainLabel} (step : MainStep s label next)
    (ticks : GoodClock s label next) (interval : ValidInterval s.col.intervalMs)
    (timed : s.col.Timed) : next.col.Timed := by
  have seen := MainStep.collector step
  cases known : label.collector? with
  | none =>
      rw [known] at seen
      exact seen ▸ timed
  | some inner =>
      rw [known] at seen
      refine CollectorStep.timed seen interval (fun now same => ticks now ?_) timed
      subst same
      cases label with
      | background => rw [Option.some.inj known]
      | call api => cases api <;> cases known
      | _ => cases known

/-- The pace of a run, at the state it has come to. -/
structure MainLoop.Paced (trace : List MainLabel) (s : MainLoop) : Prop where
  /-- The keys alone decide the interval. -/
  interval : s.refreshInterval = intervalAfter trace
  valid : ValidInterval s.refreshInterval
  /-- The collector's copy differs only until a call has stored the new interval. -/
  copied : s.main.storing = false → s.col.intervalMs = s.refreshInterval
  stored : ∀ ms, s.main.argument? = some ms → ms = s.refreshInterval
  /-- A thread goes to sleep for the interval the collector has. -/
  sleep : ∀ next deadline, MainStep s (.background .sleep) next →
    next.col.thread = .asleep deadline → clockDiffMs next.col.last deadline = s.col.intervalMs
  /-- Every deadline is a good time, an interval after the last sweep. -/
  deadline : ∀ deadline, s.col.thread = .asleep deadline →
    deadline.WellFormed ∧ ValidInterval (clockDiffMs s.col.last deadline)
  /-- A sweep nobody asked for comes half a second after the last one. -/
  sweep : ∀ w next, MainStep s (.background (.startSweep w)) next →
    s.col.refreshRequested = true ∨ minInterval ≤ clockDiffMs s.col.last s.col.clock
  /-- The status line names the interval the collector has. -/
  status : ∀ ms next, s.main = .returning (.setInterval ms) → MainStep s .unlock next →
    next.ui.statusMessage =
      text "Update interval: " ++ signedDecimal next.col.intervalMs ++ text " ms"

theorem sleep_deadline {c next : Collector} {deadline : Timespec}
    (step : CollectorStep c .sleep next) (there : next.thread = .asleep deadline) :
    clockDiffMs next.last deadline = c.intervalMs := by
  cases step
  obtain rfl := ThreadPoint.asleep.inj there
  exact clockDiffMs_addMs _ _

theorem Collector.Timed.sweep {c next : Collector} {w : Sweep} (timed : c.Timed)
    (step : CollectorStep c (.startSweep w) next) :
    c.refreshRequested = true ∨ minInterval ≤ clockDiffMs c.last c.clock := by
  cases step with
  | startSweep there going =>
      rcases timed.waited (.inr there) with stopped | asked | past
      · rw [going] at stopped
        cases stopped
      · exact .inl asked
      · exact .inr past

/-- The message about an interval fits its two buffers. -/
theorem interval_status (s : MainLoop) {ms : Int} (valid : ValidInterval ms) :
    (s.afterCall (.setInterval ms)).ui.statusMessage =
      text "Update interval: " ++ signedDecimal ms ++ text " ms" := by
  obtain ⟨low, high, _⟩ := valid
  unfold minInterval at low
  unfold maxInterval at high
  have digits : (signedDecimal ms).length ≤ 11 :=
    length_signedDecimal_le (by omega) (by omega)
  have short : (text "Update interval: " ++ signedDecimal ms ++ text " ms").length ≤ 31 := by
    rw [List.length_append, List.length_append]
    have words : (text "Update interval: ").length = 17 ∧ (text " ms").length = 3 := by decide
    omega
  simp only [MainLoop.afterCall, Ui.setStatus]
  rw [snprintf_fits (s := text "Update interval: " ++ signedDecimal ms ++ text " ms") (by omega),
    snprintf_fits (by unfold statusMsgMax; omega)]

/-- In every run whose clock gives good times, the interval is what the keys make of two
    seconds, the collector has it as soon as a call has stored it, deadlines are good times
    an interval after the last sweep, and no sweep that was not asked for comes before half
    a second has passed, also where a change of the interval meets a timeout. -/
theorem sweeps_paced {start s : MainLoop} {trace : List MainLabel}
    (initial : mainSystem.Init start) (clock : start.col.clock.WellFormed)
    (run : (mainSystem.restrict GoodClock).Run start trace s) : s.Paced trace := by
  have kept : s.refreshInterval = intervalAfter trace ∧ s.Agreed ∧ s.col.Timed := by
    refine run.induct (P := fun trace s =>
      s.refreshInterval = intervalAfter trace ∧ s.Agreed ∧ s.col.Timed) ?_ ?_
    · obtain ⟨_, _, _, _, _, _, _, _, _, rfl⟩ := initial
      have two : ValidInterval 2000 := ⟨by decide, by decide, by decide⟩
      have zero : Timespec.WellFormed ⟨0, 0⟩ := ⟨by decide, by decide⟩
      refine ⟨rfl, ⟨two, two, (fun _ here => by cases here), fun _ => rfl⟩, ?_⟩
      exact .busy clock zero (by simp [MainLoop.start, Collector.start])
        (by simp [MainLoop.start, Collector.start])
    · intro trace s label next _ known step
      obtain ⟨interval, agreed, timed⟩ := known
      refine ⟨?_, MainStep.agreed step.1 agreed, MainStep.timed step.1 step.2 agreed.collector timed⟩
      rw [intervalAfter_snoc, MainStep.interval step.1, interval]
  obtain ⟨interval, agreed, timed⟩ := kept
  refine ⟨interval, agreed.valid, agreed.same, agreed.argument, ?_, timed.deadline, ?_, ?_⟩
  · intro next deadline step there
    cases step with
    | background own step => exact sleep_deadline step there
  · intro w next step
    cases step with
    | background own step => exact timed.sweep step
  · intro ms next there step
    have same := agreed.argument ms (by rw [there]; rfl)
    have copy := agreed.same (by rw [there]; rfl)
    cases step with
    | @returned call col here step =>
        rw [there] at here
        cases here
        have kept := step.interval_kept fun _ => by simp
        have stored : col.intervalMs = ms := (kept.trans copy).trans same.symm
        have shown := interval_status { s with col := col } (same ▸ agreed.valid)
        refine shown.trans ?_
        rw [← stored]
        rfl
    | looked here | release here => rw [there] at here; cases here

/-- The + key at the first interval. -/
theorem interval_raised {s : MainLoop} (there : s.main = .input) (free : s.col.lock = .free)
    (interval : s.refreshInterval = 2000) :
    ∃ later, mainSystem.Run s [.key 43, .lock, .call (.setInterval 2500), .unlock] later ∧
      later.col = { s.col with intervalMs := 2500 } ∧ later.refreshInterval = 2500 := by
  obtain ⟨⟨_, _, _, _, _, _, _, _, _, _, _⟩, _⟩ := s
  obtain ⟨rfl, rfl, rfl⟩ := And.intro there (And.intro free interval)
  exact ⟨_, .cons (.key rfl) <| .cons (.lock rfl (.acquire rfl)) <|
    .cons (.call rfl (.setInterval rfl)) <| .single (.returned rfl (.release rfl)), rfl, rfl⟩

/-- The thread's first wait, which runs to its deadline, and the sweep it then begins. -/
def firstWait : List CollectorLabel :=
  [.readClock, .lock, .sleep, .tick ⟨13, 0⟩, .timeout, .reacquire, .startSweep emptySweep]

theorem first_wait {s : MainLoop} (entry : s.col.thread = .entry) (free : s.col.lock = .free)
    (going : s.col.stopping = false) (quiet : s.col.refreshRequested = false)
    (clock : s.col.clock = ⟨10, 0⟩) (interval : s.col.intervalMs = 2500) :
    ∃ later, mainSystem.Run s (firstWait.map .background) later ∧
      later.col.intervalMs = 2500 ∧ later.refreshInterval = s.refreshInterval := by
  obtain ⟨⟨_, _, _, _, _, _, _, _, _, _, _⟩, _⟩ := s
  obtain ⟨rfl, rfl, rfl⟩ := And.intro entry (And.intro free going)
  obtain ⟨rfl, rfl, rfl⟩ := And.intro quiet (And.intro clock interval)
  have later : Timespec.NotAfter ⟨10, 0⟩ ⟨13, 0⟩ := .inl (by decide)
  have due : (addMs ⟨10, 0⟩ 2500).NotAfter ⟨13, 0⟩ := .inl (by decide)
  exact ⟨_, .cons (.background rfl (.readClock rfl)) <| .cons (.background rfl (.lock rfl rfl)) <|
    .cons (.background rfl (.sleep rfl rfl rfl)) <| .cons (.background rfl (.tick later)) <|
    .cons (.background rfl (.timeout rfl due)) <| .cons (.background rfl (.reacquire rfl rfl)) <|
    .single (.background rfl (.startSweep rfl rfl)), rfl, rfl⟩

/-- From the wait for a key on, + sets two and a half seconds, which the thread then waits
    for its next sweep. -/
theorem sweeps_paced_example :
    ∃ (trace : List MainLabel) (s : MainLoop), s.Paced trace ∧ .key 43 ∈ trace ∧
      .background .timeout ∈ trace ∧ .background (.startSweep emptySweep) ∈ trace ∧
      s.refreshInterval = 2500 ∧ s.col.intervalMs = 2500 := by
  have opening : mainSystem.Run exampleMain _ exampleInput :=
    (first_frame exampleSystem exampleSample 100 40 ⟨10, 0⟩ ⟨true, true, ⟨true, none⟩⟩).append
      example_input
  obtain ⟨raised, keys, col, interval⟩ := interval_raised (s := exampleInput) rfl rfl rfl
  obtain ⟨later, waits, stored, same⟩ :=
    first_wait (s := raised) (col ▸ rfl) (col ▸ rfl) (col ▸ rfl) (col ▸ rfl) (col ▸ rfl) (col ▸ rfl)
  have good : Timespec.WellFormed ⟨13, 0⟩ := ⟨by decide, by decide⟩
  have run : (mainSystem.restrict GoodClock).Run exampleMain _ later :=
    ((opening.append keys).append waits).restrict (by simp [firstWait, GoodClock, good])
  refine ⟨_, later, sweeps_paced ⟨_, _, _, _, _, _, _, _, _, rfl⟩ ⟨by decide, by decide⟩ run,
    ?_, ?_, ?_, same.trans interval, stored⟩
  · simp
  · simp [firstWait]
  · simp [firstWait]

end KernelMonitor
