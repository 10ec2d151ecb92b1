import KernelMonitor.SignalTargets

/-! # Generations and frames

The main loop compares generations and nothing else. That is enough as long as the
counter has not wrapped around: equal values under the lock mean equal figures, and
the last frame is up to date whenever the main thread lets go of the lock.
-/

namespace KernelMonitor

open Library

/-! ## One generation, one set of figures -/

/-- The two states show the same sample, system figures and event log. -/
structure SameFigures (before after : Collector) : Prop where
  sys : after.sys = before.sys
  sample : after.proc.sample = before.proc.sample
  events : after.proc.events = before.proc.events

def CollectorLabel.isBump : CollectorLabel → Bool
  | .bump => true
  | _ => false

theorem CollectorStep.generation {c next : Collector} {label : CollectorLabel}
    (step : CollectorStep c label next) :
    next.generation = c.generation + UInt64.ofNat label.isBump.toNat := by
  cases step <;> simp [CollectorLabel.isBump]

/-- The counter counts the bumps, modulo its size. -/
theorem generation_counts {c d : Collector} {labels : List CollectorLabel}
    (run : collectorSystem.Run c labels d) :
    d.generation = c.generation + UInt64.ofNat (labels.countP CollectorLabel.isBump) := by
  refine run.induct (P := fun labels d => d.generation =
    c.generation + UInt64.ofNat (labels.countP CollectorLabel.isBump)) (by simp) ?_
  intro labels d label next _ counted step
  have one : [label].countP CollectorLabel.isBump = label.isBump.toNat := by
    rw [List.countP_singleton]
    cases label.isBump <;> rfl
  rw [CollectorStep.generation step, counted, List.countP_append, one, UInt64.ofNat_add,
    UInt64.add_assoc]

theorem no_bump_of_same {c d : Collector} {labels : List CollectorLabel}
    (run : collectorSystem.Run c labels d) (same : d.generation = c.generation)
    (few : labels.countP CollectorLabel.isBump < 2 ^ 64) :
    labels.countP CollectorLabel.isBump = 0 := by
  have counted := generation_counts run
  generalize labels.countP CollectorLabel.isBump = n at *
  have zero : UInt64.ofNat n = 0 := by
    rw [same] at counted
    exact UInt64.left_eq_add.mp counted
  have value := congrArg UInt64.toNat zero
  rw [UInt64.toNat_ofNat', Nat.mod_eq_of_lt few] at value
  exact value

/-- Without a bump the figures stay, but for a thread between its update of the system
    figures and its bump. -/
def Pending (base c : Collector) : Prop :=
  SameFigures base c ∨ c.thread = .publishing ∨ c.thread = .bumping

theorem CollectorStep.pending {base c next : Collector} {label : CollectorLabel}
    (step : CollectorStep c label next) (other : label.isBump = false) (pending : Pending base c) :
    Pending base next := by
  cases step with
  | updateSys there => exact .inr (.inl rfl)
  | publish there => exact .inr (.inr rfl)
  | bump there => cases other
  | sweep there step =>
      rcases pending with same | publishing | bumping
      · have kept := (sweepStep_same step).1
        refine .inl ⟨same.sys, ?_, kept.events.trans same.events⟩
        exact kept.sample.trans same.sample
      · rw [there] at publishing
        cases publishing
      · rw [there] at bumping
        cases bumping
  | _ =>
      rcases pending with same | publishing | bumping
      · exact .inl ⟨same.sys, same.sample, same.events⟩
      · simp_all [Pending]
      · simp_all [Pending]

/-- Equal generations under the main thread's lock, with fewer bumps in between than
    the counter has values. -/
theorem same_generation {trace labels : List CollectorLabel} {c d : Collector}
    (history : collectorSystem.Trace trace c) (run : collectorSystem.Run c labels d)
    (still : d.lock = .main) (same : d.generation = c.generation)
    (few : labels.countP CollectorLabel.isBump < 2 ^ 64) : SameFigures c d := by
  have none := no_bump_of_same run same few
  have quiet : ∀ label ∈ labels, label.isBump = false := by
    intro label member
    simpa using List.countP_eq_zero.mp none label member
  have pending : Pending c d := by
    refine run.keeps_along ?_ quiet (.inl ⟨rfl, rfl, rfl⟩)
    intro _ _ _ step other
    exact CollectorStep.pending step other
  have outside : d.thread.holdsLock = false := by
    have locked := collector_locked ⟨_, history.append run⟩
    rw [Collector.Locked, still] at locked
    simpa using locked
  rcases pending with same | publishing | bumping
  · exact same
  · rw [publishing] at outside
    cases outside
  · rw [bumping] at outside
    cases outside

/-! ## One critical section -/

def CollectorLabel.isTick : CollectorLabel → Bool
  | .tick _ => true
  | _ => false

/-- The run so far ends with the thread taking its lock in the given state, and then
    these calls and nothing else but the clock. -/
def Section (trace calls : List CollectorLabel) (base c : Collector) : Prop :=
  ∃ earlier within, trace = earlier ++ within ∧
    within.filter (fun label => !label.isTick) = .relock :: calls ∧
    collectorSystem.Trace earlier base ∧ collectorSystem.Run base within c

/-- What the thread has written by the time it is at a point of its locked part. -/
def Written (trace : List CollectorLabel) (c : Collector) : ThreadPoint → Prop
  | .updating => ∃ base, Section trace [] base c ∧ c.sys = base.sys ∧ c.proc = base.proc
  | .publishing =>
      ∃ base reads, Section trace [.updateSys reads] base c ∧
        c.sys = (base.sys.update reads).2 ∧ c.proc = base.proc
  | .bumping =>
      ∃ base reads time, Section trace [.updateSys reads, .publish time] base c ∧
        c.sys = (base.sys.update reads).2 ∧ c.proc = publish time base.proc
  | _ => True

theorem Section.snoc {trace calls : List CollectorLabel} {base c next : Collector}
    {label : CollectorLabel} (inside : Section trace calls base c)
    (step : CollectorStep c label next) :
    Section (trace ++ [label]) (calls ++ [label].filter fun label => !label.isTick) base
      next := by
  obtain ⟨earlier, within, rfl, filtered, before, run⟩ := inside
  refine ⟨earlier, within ++ [label], List.append_assoc .., ?_, before, .snoc run step⟩
  rw [List.filter_append, filtered, List.cons_append]

theorem Section.tick {trace calls : List CollectorLabel} {base c next : Collector}
    {now : Timespec} (inside : Section trace calls base c)
    (step : CollectorStep c (.tick now) next) : Section (trace ++ [.tick now]) calls base next := by
  have none : [CollectorLabel.tick now].filter (fun label => !label.isTick) = [] := rfl
  have longer := inside.snoc step
  rwa [none, List.append_nil] at longer

theorem Written.tick {trace : List CollectorLabel} {c next : Collector} {now : Timespec}
    {point : ThreadPoint} (written : Written trace c point)
    (step : CollectorStep c (.tick now) next) (sys : next.sys = c.sys) (proc : next.proc = c.proc) :
    Written (trace ++ [.tick now]) next point := by
  cases point with
  | updating =>
      obtain ⟨base, inside, wrote, kept⟩ := written
      exact ⟨base, inside.tick step, sys.trans wrote, proc.trans kept⟩
  | publishing =>
      obtain ⟨base, reads, inside, wrote, kept⟩ := written
      exact ⟨base, reads, inside.tick step, sys.trans wrote, proc.trans kept⟩
  | bumping =>
      obtain ⟨base, reads, time, inside, wrote, swapped⟩ := written
      exact ⟨base, reads, time, inside.tick step, sys.trans wrote, proc.trans swapped⟩
  | _ => trivial

theorem written_outside {trace : List CollectorLabel} {c : Collector} {point : ThreadPoint}
    (outside : point.holdsLock = false) : Written trace c point := by
  cases point <;> trivial

theorem CollectorStep.written {trace : List CollectorLabel} {c next : Collector}
    {label : CollectorLabel} (history : collectorSystem.Trace trace c)
    (written : Written trace c c.thread) (step : CollectorStep c label next) :
    Written (trace ++ [label]) next next.thread := by
  have locked := collector_locked ⟨trace, history⟩
  unfold Collector.Locked at locked
  have taken := step
  cases step with
  | tick later => exact written.tick taken rfl rfl
  | relock there free => exact ⟨c, ⟨trace, [.relock], rfl, rfl, history, .single taken⟩, rfl, rfl⟩
  | updateSys there =>
      rw [there] at written
      obtain ⟨base, inside, sys, proc⟩ := written
      exact ⟨base, _, inside.snoc taken, by rw [sys], proc⟩
  | publish there =>
      rw [there] at written
      obtain ⟨base, reads, inside, sys, proc⟩ := written
      exact ⟨base, reads, _, inside.snoc taken, sys, by rw [proc]⟩
  | acquire free => exact written_outside (by simp_all)
  | release held => exact written_outside (by simp_all)
  | request held => exact written_outside (by simp_all)
  | setInterval held => exact written_outside (by simp_all)
  | stop held => exact written_outside (by simp_all)
  | join letGo stopped there => exact written_outside (by rw [there]; rfl)
  | reacquire there free => cases ‹Bool› <;> trivial
  | _ => trivial

theorem collector_written {trace : List CollectorLabel} {c : Collector}
    (history : collectorSystem.Trace trace c) : Written trace c c.thread := by
  apply history.induct (P := fun trace c => Written trace c c.thread)
  · rintro _ ⟨sys, proc, intervalMs, clock, rfl⟩
    trivial
  · intro trace c label next before written step
    exact CollectorStep.written before written step

/-! ## The main thread at the end of an iteration -/

/-- What holds of the main thread wherever it is: it holds the lock in its locked parts
    only, and from the comparison to the end of the iteration it knows the generation. -/
structure MainLoop.Synced (s : MainLoop) : Prop where
  lock : s.col.lock = .main ↔ s.main.holdsLock = true
  generation : s.main = .painting ∨ s.main = .painted → s.drawnGeneration = s.col.generation
  clean : s.main = .painted → s.needsRedraw = false

/-- Behind the main thread's lock the collector neither takes it nor counts on. -/
theorem CollectorStep.background {c next : Collector} {label : CollectorLabel}
    (step : CollectorStep c label next) (locked : c.Locked) (own : label.byMain = false) :
    (next.lock = .main ↔ c.lock = .main) ∧
      (c.lock = .main → next.generation = c.generation) := by
  unfold Collector.Locked at locked
  cases step <;> simp_all [ThreadPoint.holdsLock, CollectorLabel.byMain]

/-- Outside the locked parts there is nothing else to show. -/
theorem MainLoop.Synced.outside {s : MainLoop} (free : s.col.lock ≠ .main)
    (out : s.main.holdsLock = false) : s.Synced where
  lock := by simp [free, out]
  generation := by rintro (there | there) <;> rw [there] at out <;> cases out
  clean := by
    intro there
    rw [there] at out
    cases out

theorem MainLoop.Synced.held {s : MainLoop} {point : MainPoint} (synced : s.Synced)
    (there : s.main = point) (inside : point.holdsLock = true) : s.col.lock = .main :=
  synced.lock.mpr (there ▸ inside)

theorem MainLoop.Synced.free {s : MainLoop} {point : MainPoint} (synced : s.Synced)
    (there : s.main = point) (out : point.holdsLock = false) : s.col.lock ≠ .main := by
  intro held
  have inside := synced.lock.mp held
  rw [there, out] at inside
  cases inside

theorem MainStep.synced {s next : MainLoop} {label : MainLabel} (step : MainStep s label next)
    (locked : s.col.Locked) (synced : s.Synced) : next.Synced := by
  have lock := synced.lock
  cases step with
  | background own step =>
      obtain ⟨holder, counted⟩ := CollectorStep.background step locked own
      refine ⟨holder.trans lock, fun there => ?_, synced.clean⟩
      have held : s.col.lock = .main := by
        rw [lock]
        rcases there with there | there <;> rw [there] <;> rfl
      rw [counted held]
      exact synced.generation there
  | interrupt => exact ⟨lock, synced.generation, synced.clean⟩
  | test there =>
      refine .outside (synced.free there rfl) ?_
      dsimp only
      split
      · rfl
      · split <;> rfl
  | key there =>
      have kept := s.handleKey_kept ‹Int›
      refine .outside ?_ kept.outside
      rw [kept.col]
      exact synced.free there rfl
  | lock waiting step =>
      cases step
      cases there : s.main <;> rw [there] at waiting <;> cases waiting <;>
        exact ⟨by simp [MainPoint.holdsLock], by simp, by simp⟩
  | call there step =>
      have held := synced.held there rfl
      cases ‹ApiCall› <;> cases step <;>
        exact ⟨by simp [held, MainPoint.holdsLock], by simp, by simp⟩
  | returned there step =>
      cases step
      cases ‹ApiCall› <;> exact .outside (by simp [MainLoop.afterCall]) rfl
  | find there =>
      have held := synced.held there rfl
      exact ⟨by simp [held, MainLoop.afterFind, MainPoint.holdsLock], by simp [MainLoop.afterFind],
        by simp [MainLoop.afterFind]⟩
  | looked there step =>
      cases step
      cases ‹Option Bytes› <;> exact .outside (by simp [MainLoop.afterLookup]) rfl
  | confirm there =>
      unfold MainLoop.afterConfirm
      split <;> exact .outside (synced.free there rfl) rfl
  | kill there made =>
      exact .outside (synced.free there rfl) rfl
  | refused there none =>
      exact .outside (synced.free there rfl) rfl
  | compare there =>
      have held := synced.held there rfl
      unfold MainLoop.compareGenerations
      split
      · exact ⟨by simp [held, MainPoint.holdsLock], fun _ => rfl, by simp⟩
      · rename_i same
        exact ⟨by simp [held, MainPoint.holdsLock], fun _ => (not_not.mp same).symm, by simp⟩
  | frame there due =>
      have held := synced.held there rfl
      exact ⟨by simp [held, MainPoint.holdsLock], fun _ => synced.generation (.inl there),
        fun _ => rfl⟩
  | skip there clean =>
      have held := synced.held there rfl
      exact ⟨by simp [held, MainPoint.holdsLock], fun _ => synced.generation (.inl there),
        fun _ => clean⟩
  | release there step =>
      cases step
      exact .outside (by simp) rfl
  | join there step =>
      cases step
      exact .outside ‹_› rfl

theorem main_synced {trace : List MainLabel} {s : MainLoop}
    (history : mainSystem.Trace trace s) : s.Synced := by
  apply history.induct (P := fun _ s => s.Synced)
  · rintro _ ⟨_, _, _, _, _, _, _, _, _, rfl⟩
    exact .outside (by simp [MainLoop.start, Collector.start]) rfl
  · intro trace s label next before synced step
    exact MainStep.synced step (collector_locked ⟨_, main_collector_trace before⟩) synced

/-! ## The last frame -/

/-- The last frame of a run to `s` was painted in the state `drawn`, and these are the
    labels since. -/
def LastFrame (trace : List MainLabel) (drawn : MainLoop) (after : List MainLabel)
    (s : MainLoop) : Prop :=
  ∃ before mem width height,
    let shown := (drawn.ui.draw mem width height drawn.col.sys drawn.col.proc).2
    trace = before ++ .frame shown :: after ∧ (∀ other, .frame other ∉ after) ∧
      drawn.main = .painting ∧ mainSystem.Trace before drawn ∧
      mainSystem.Run drawn (.frame shown :: after) s

/-- Until the next frame the flag and the generation drawn only change together. -/
theorem MainStep.undrawn {s next : MainLoop} {label : MainLabel} (step : MainStep s label next)
    (other : ∀ shown, label ≠ .frame shown) :
    next.needsRedraw = true ∨
      next.needsRedraw = s.needsRedraw ∧ next.drawnGeneration = s.drawnGeneration := by
  cases step with
  | key there =>
      have kept := s.handleKey_kept ‹Int›
      rcases kept.needsRedraw with due | same
      · exact .inl due
      · exact .inr ⟨same, kept.drawnGeneration⟩
  | returned there step => cases ‹ApiCall› <;> exact .inr ⟨rfl, rfl⟩
  | looked there step => cases ‹Option Bytes› <;> exact .inr ⟨rfl, rfl⟩
  | confirm there =>
      unfold MainLoop.afterConfirm
      split <;> exact .inr ⟨rfl, rfl⟩
  | compare there =>
      unfold MainLoop.compareGenerations
      split
      · exact .inl rfl
      · exact .inr ⟨rfl, rfl⟩
  | frame there due => exact absurd rfl (other _)
  | _ => exact .inr ⟨rfl, rfl⟩

/-- A frame that is not due again was painted with the generation still remembered. -/
theorem main_last_frame {trace : List MainLabel} {s : MainLoop}
    (history : mainSystem.Trace trace s) :
    s.needsRedraw = true ∨
      ∃ drawn after, LastFrame trace drawn after s ∧
        s.drawnGeneration = drawn.drawnGeneration := by
  refine history.induct (P := fun trace s => s.needsRedraw = true ∨
    ∃ drawn after, LastFrame trace drawn after s ∧
      s.drawnGeneration = drawn.drawnGeneration) ?_ ?_
  · rintro _ ⟨_, _, _, _, _, _, _, _, _, rfl⟩
    exact .inl rfl
  · intro trace s label next before known step
    by_cases frame : ∃ shown, label = .frame shown
    · obtain ⟨shown, rfl⟩ := frame
      have taken := step
      cases step with
      | frame there due =>
          exact .inr ⟨s, [], ⟨trace, _, _, _, rfl, by simp, there, before, .single taken⟩, rfl⟩
    · have other : ∀ shown, label ≠ .frame shown := fun shown same => frame ⟨shown, same⟩
      rcases MainStep.undrawn step other with due | ⟨flag, generation⟩
      · exact .inl due
      · rcases known with due | ⟨drawn, after, last, same⟩
        · exact .inl (flag.trans due)
        · obtain ⟨front, mem, width, height, rfl, none, there, upTo, run⟩ := last
          refine .inr ⟨drawn, after ++ [label], ⟨front, mem, width, height, by simp, ?_, there,
            upTo, .snoc run step⟩, generation.trans same⟩
          intro shown member
          rcases List.mem_append.mp member with earlier | final
          · exact none shown earlier
          · exact other shown (List.mem_singleton.mp final).symm

/-! ## What is on the screen -/

/-- How many generations were published. -/
def published (trace : List MainLabel) : Nat :=
  (trace.filterMap MainLabel.collector?).countP CollectorLabel.isBump

/-- The thread is about to wait, with nothing asked of it. -/
structure Resting (c : Collector) : Prop where
  lock : c.lock = .collector
  thread : c.thread = .testing
  going : c.stopping = false
  quiet : c.refreshRequested = false

/-- A wait that times out, and a sweep that finds no process. -/
def emptyCycle (now : Timespec) : List CollectorLabel :=
  [.sleep, .tick now, .timeout, .reacquire, .startSweep emptySweep, .stamp, .sweep, .sweep, .sweep,
    .relock, .updateSys exampleReads, .publish exampleStamps, .bump]

theorem empty_cycle {c : Collector} (rest : Resting c) :
    ∃ now d, collectorSystem.Run c (emptyCycle now) d ∧ Resting d ∧
      d.generation = c.generation + 1 ∧ d.proc.sample = [] := by
  obtain ⟨_, _, sys, proc, intervalMs, _, _, generation, _, last, clock⟩ := c
  obtain ⟨rfl, rfl, rfl, rfl⟩ := rest
  let deadline := addMs last intervalMs
  have later : clock.NotAfter ⟨max clock.sec deadline.sec + 1, 0⟩ := .inl (by simp only; omega)
  have due : deadline.NotAfter ⟨max clock.sec deadline.sec + 1, 0⟩ := .inl (by simp only; omega)
  refine ⟨_, _, .cons (.sleep rfl rfl rfl) <| .cons (.tick later) <| .cons (.timeout rfl due) <|
    .cons (.reacquire rfl rfl) <| .cons (.startSweep rfl rfl) <| .cons (.stamp rfl) <|
    .cons (.sweep rfl rfl) <| .cons (.sweep rfl rfl) <| .cons (.sweep rfl rfl) <|
    .cons (.relock rfl rfl) <| .cons (.updateSys rfl) <| .cons (.publish rfl) <|
    .single (.bump rfl), ⟨rfl, rfl, rfl, rfl⟩, rfl, ?_⟩
  rw [publish_sample]
  rfl

/-- In every run of the program: between two instants at which the main thread holds
    the lock and reads the same generation, with fewer than 2^64 publishes in between,
    the figures have not changed; every generation was written in one critical section;
    and at the end of an iteration the last frame was painted from figures which, with
    fewer than 2^64 publishes since, are the current ones. -/
theorem generations_and_frames {trace : List MainLabel} {s : MainLoop}
    (history : mainSystem.Trace trace s) :
    (∀ after later, mainSystem.Run s after later → s.col.lock = .main →
      later.col.lock = .main → later.col.generation = s.col.generation →
      published after < 2 ^ 64 → SameFigures s.col later.col) ∧
    (∀ before after, trace.filterMap MainLabel.collector? = before ++ .bump :: after →
      ∃ base reads time bumped, Section before [.updateSys reads, .publish time] base bumped ∧
        bumped.sys = (base.sys.update reads).2 ∧ bumped.proc = publish time base.proc ∧
        collectorSystem.Run bumped (.bump :: after) s.col) ∧
    (s.main = .painted → s.drawnGeneration = s.col.generation ∧
      ∃ drawn after, LastFrame trace drawn after s ∧
        (published after < 2 ^ 64 → SameFigures drawn.col s.col)) := by
  refine ⟨?_, ?_, ?_⟩
  · intro after later run _ still same few
    exact same_generation (main_collector_trace history) (main_collector_run run) still same few
  · intro before after whole
    have seen := main_collector_trace history
    rw [whole] at seen
    obtain ⟨bumped, _, upTo, step, _, run⟩ := seen.around
    have written := collector_written upTo
    have rest := LabelledSystem.Run.cons step run
    cases step with
    | bump there =>
        rw [there] at written
        obtain ⟨base, reads, time, inside, sys, proc⟩ := written
        exact ⟨base, reads, time, bumped, inside, sys, proc, rest⟩
  · intro there
    have synced := main_synced history
    refine ⟨synced.generation (.inr there), ?_⟩
    rcases main_last_frame history with due | ⟨drawn, after, last, same⟩
    · rw [synced.clean there] at due
      cases due
    · refine ⟨drawn, after, last, fun few => ?_⟩
      obtain ⟨before, mem, width, height, _, _, painting, upTo, run⟩ := last
      have atFrame := (main_synced upTo).generation (.inl painting)
      have now := synced.generation (.inr there)
      exact same_generation (main_collector_trace upTo) (main_collector_run run)
        (synced.held there rfl) (by rw [← now, same, atFrame]) few

/-- A new generation is drawn after a wait for a key that ends without one. -/
theorem next_frame {s : MainLoop} (there : s.main = .input) (free : s.col.lock = .free)
    (news : s.col.generation ≠ s.drawnGeneration) (mem : DrawMemory) (width height : Int) :
    ∃ shown later, mainSystem.Run s [.key (-1), .lock, .compare, .frame shown] later ∧
      later.main = .painted := by
  let held (main : MainPoint) : MainLoop :=
    { s with col := { s.col with lock := .main }, main := main }
  let due : MainLoop :=
    { held .painting with needsRedraw := true, drawnGeneration := s.col.generation }
  have key : MainStep s (.key (-1)) { s with main := .redraw } := .key there
  have lock : MainStep { s with main := .redraw } .lock (held .comparing) :=
    .lock rfl (.acquire free)
  have compare : MainStep (held .comparing) .compare due := by
    have step : MainStep (held .comparing) .compare _ := .compare rfl
    rwa [MainLoop.compareGenerations, if_pos news] at step
  have frame : MainStep due (.frame (due.ui.draw mem width height due.col.sys due.col.proc).2) _ :=
    .frame rfl rfl
  exact ⟨_, _, .cons key <| .cons lock <| .cons compare <| .single frame, rfl⟩

/-- A generation is counted while the user presses nothing, and drawn. -/
theorem generations_and_frames_example :
    ∃ trace s, mainSystem.Trace trace s ∧ .background .bump ∈ trace ∧
      s.drawnGeneration = s.col.generation ∧ ∃ drawn after, LastFrame trace drawn after s := by
  let locked : Collector :=
    { exampleInput.col with last := exampleInput.col.clock, lock := .collector, thread := .testing }
  have resting : Resting locked := ⟨rfl, rfl, rfl, rfl⟩
  obtain ⟨now, col, cycle, rest, counted, _⟩ := empty_cycle resting
  let asleep : Collector :=
    { col with lock := .free, thread := .asleep (addMs col.last col.intervalMs) }
  have whole : collectorSystem.Run exampleInput.col ([.readClock, .lock] ++ emptyCycle now ++
      [.sleep]) asleep :=
    .snoc (.append (.cons (.readClock rfl) (.single (.lock rfl rfl))) cycle)
      (.sleep rest.thread rest.going rest.quiet)
  have round : mainSystem.Run exampleInput _ { exampleInput with col := asleep } :=
    background_run whole (by simp [emptyCycle, CollectorLabel.byMain])
  have news : asleep.generation ≠ exampleInput.drawnGeneration := by
    have one : asleep.generation = 1 := counted
    rw [one]
    decide
  obtain ⟨shown, later, frame, painted⟩ :=
    next_frame (s := { exampleInput with col := asleep }) rfl rfl news ⟨true, true, ⟨true, none⟩⟩
      100 40
  have history := example_painted.append (example_input.append (round.append frame))
  obtain ⟨known, drawn, after, last, _⟩ := (generations_and_frames history).2.2 painted
  exact ⟨_, later, history, by simp [emptyCycle], known, drawn, after, last⟩

/-! ## Once around the counter -/

theorem empty_cycles {c : Collector} (rest : Resting c) (n : Nat) :
    ∃ labels d, collectorSystem.Run c labels d ∧ (∀ label ∈ labels, label.byMain = false) ∧
      Resting d ∧ d.generation = c.generation + UInt64.ofNat n ∧ (0 < n → d.proc.sample = []) := by
  induction n with
  | zero => exact ⟨[], c, .refl c, by simp, rest, by simp, by simp⟩
  | succ n ih =>
      obtain ⟨labels, d, run, own, resting, generation, _⟩ := ih
      obtain ⟨now, next, cycle, rested, counted, empty⟩ := empty_cycle resting
      refine ⟨labels ++ emptyCycle now, next, run.append cycle, ?_, rested, ?_, fun _ => empty⟩
      · exact List.forall_mem_append.mpr ⟨own, by simp [emptyCycle, CollectorLabel.byMain]⟩
      · rw [counted, generation, UInt64.ofNat_add, UInt64.add_assoc]
        rfl

/-- While the main thread waits for a key the counter goes round once. -/
theorem wrap_run {s : MainLoop} (there : s.main = .input) (free : s.col.lock = .free)
    (entry : s.col.thread = .entry) (going : s.col.stopping = false)
    (quiet : s.col.refreshRequested = false) (drawn : s.col.generation = s.drawnGeneration)
    (clean : s.needsRedraw = false) :
    ∃ after later, mainSystem.Run s after later ∧ later.main = .painted ∧
      later.col.lock = .main ∧ later.col.generation = s.col.generation ∧
      later.col.proc.sample = [] ∧ ∀ shown, .frame shown ∉ after := by
  let locked : Collector :=
    { s.col with last := s.col.clock, lock := .collector, thread := .testing }
  obtain ⟨labels, col, run, own, rest, generation, empty⟩ :=
    empty_cycles (c := locked) ⟨rfl, rfl, going, quiet⟩ (2 ^ 64)
  let waiting : Collector :=
    { col with lock := .free, thread := .asleep (addMs col.last col.intervalMs) }
  have whole : collectorSystem.Run s.col ([.readClock, .lock] ++ labels ++ [.sleep]) waiting :=
    .snoc (.append (.cons (.readClock entry) (.single (.lock rfl free))) run)
      (.sleep rest.thread rest.going rest.quiet)
  have mine : ∀ label ∈ [.readClock, .lock] ++ labels ++ [.sleep],
      CollectorLabel.byMain label = false :=
    List.forall_mem_append.mpr ⟨List.forall_mem_append.mpr
      ⟨by simp [CollectorLabel.byMain], own⟩, by simp [CollectorLabel.byMain]⟩
  have same : col.generation = s.drawnGeneration := by
    rw [generation, ← drawn]
    exact UInt64.add_zero _
  let place (lock : Holder) (main : MainPoint) : MainLoop :=
    { s with col := { waiting with lock := lock }, main := main }
  have round : mainSystem.Run s _ (place .free .input) := there ▸ background_run whole mine
  have key : MainStep (place .free .input) (.key (-1)) (place .free .redraw) := .key rfl
  have lock : MainStep (place .free .redraw) .lock (place .main .comparing) :=
    .lock rfl (.acquire rfl)
  have compare : MainStep (place .main .comparing) .compare (place .main .painting) := by
    have step : MainStep (place .main .comparing) .compare _ := .compare rfl
    rwa [MainLoop.compareGenerations, if_neg (not_not.mpr same)] at step
  have skip : MainStep (place .main .painting) .skip (place .main .painted) := .skip rfl clean
  refine ⟨_, place .main .painted, round.append <| .cons key <| .cons lock <| .cons compare <|
    .single skip, rfl, rfl, same.trans drawn.symm, empty (by decide), by simp⟩

def MainLabel.frame? : MainLabel → Option Frame
  | .frame shown => some shown
  | _ => none

theorem filterMap_frame_nil {labels : List MainLabel} (none : ∀ shown, .frame shown ∉ labels) :
    labels.filterMap MainLabel.frame? = [] := by
  refine List.filterMap_eq_nil_iff.mpr fun label member => ?_
  cases label with
  | frame shown => exact absurd member (none shown)
  | _ => rfl

/-- The last frame of a run whose frames are known. -/
theorem LastFrame.shown {trace after : List MainLabel} {drawn s : MainLoop} {only : Frame}
    (last : LastFrame trace drawn after s) (frames : trace.filterMap MainLabel.frame? = [only]) :
    ∃ mem width height,
      only = (drawn.ui.draw mem width height drawn.col.sys drawn.col.proc).2 := by
  obtain ⟨before, mem, width, height, rfl, none, _⟩ := last
  refine ⟨mem, width, height, ?_⟩
  simp only [List.filterMap_append, List.filterMap_cons, MainLabel.frame?,
    filterMap_frame_nil none] at frames
  have ends := congrArg List.getLast? frames
  rw [List.getLast?_concat] at ends
  exact (Option.some.inj ends).symm

/-- The two unbounded statements fail once the counter has gone round: the sample shown
    and drawn under generation 0 is gone, and the generation is 0 again. -/
theorem wrapped_generation_is_stale :
    (¬ ∀ trace s after later, mainSystem.Trace trace s → mainSystem.Run s after later →
      s.col.lock = .main → later.col.lock = .main →
      later.col.generation = s.col.generation → SameFigures s.col later.col) ∧
    ¬ ∀ trace s, mainSystem.Trace trace s → s.main = .painted →
      ∃ drawn after, LastFrame trace drawn after s ∧ SameFigures drawn.col s.col := by
  have listed : (MainLabel.frame exampleDraw.2).listed? = some [3, 12] := by decide +kernel
  have shown : exampleSample.sample.map ProcessInfo.pid = [3, 12] := by decide +kernel
  obtain ⟨after, later, run, painted, held, generation, empty, none⟩ :=
    wrap_run (s := exampleInput) rfl rfl rfl rfl rfl rfl rfl
  have whole := example_input.append run
  constructor
  · intro every
    have same := every _ _ _ _ example_painted whole rfl held generation
    have sample := same.sample
    rw [empty] at sample
    rw [show exampleSample.sample = [] from sample.symm] at shown
    cases shown
  · intro every
    obtain ⟨drawn, since, last, same⟩ := every _ _ (example_painted.append whole) painted
    obtain ⟨mem, width, height, frame⟩ : ∃ mem width height, exampleDraw.2 =
        (drawn.ui.draw mem width height drawn.col.sys drawn.col.proc).2 :=
      last.shown (by simp [List.filterMap_cons, MainLabel.frame?, filterMap_frame_nil none])
    have sample := same.sample
    rw [empty] at sample
    rw [frame] at listed
    rcases Ui.draw_listed mem width height drawn.ui drawn.col.sys drawn.col.proc with
      ⟨other, _⟩ | ⟨rows, sorted⟩
    · rw [other] at listed
      cases listed
    · rw [rows, sorted, ← sample] at listed
      simp [qsort] at listed

end KernelMonitor
