import KernelMonitor.Quitting
import KernelMonitor.SerialProgram

/-! # A refresh reaches the screen

R asks for a sweep. In a fair run that goes on, the thread begins one after the key, counts
its generation, and the main thread paints a frame after that.
-/

namespace KernelMonitor

open Library

/-! ## What a step does to the collector -/

theorem MainLabel.collector_background {label : MainLabel} {inner : CollectorLabel}
    (seen : label.collector? = some inner) (own : inner.byMain = false) :
    label = .background inner := by
  cases label with
  | background => rw [Option.some.inj seen]
  | call api => cases api <;> cases seen <;> cases own
  | lock | unlock | join => cases seen; cases own
  | _ => cases seen

/-- What every step of the collector brings about, and a signal leaves alone. -/
theorem signalledProgram_collector {P : Collector → Prop} {s after : MainLoop} {label : MainLabel}
    (step : signalledProgram.Step s label after) (same : label.collector? = none → P s.col)
    (taken : ∀ inner next, label.collector? = some inner → CollectorStep s.col inner next → P next)
    (woken : ∀ c deadline, P c → c.thread = .asleep deadline → P { c with thread := .woken false }) :
    P after.col := by
  obtain ⟨next, step, rfl⟩ := step
  have seen := MainStep.collector step
  have before : P next.col := by
    cases known : label.collector? with
    | none =>
        rw [known] at seen
        exact seen ▸ same known
    | some inner =>
        rw [known] at seen
        exact taken inner _ known seen
  rcases (next.signalled_keeps label).col with kept | ⟨deadline, asleep, kept⟩
  · exact kept ▸ before
  · exact kept ▸ woken _ deadline before asleep

theorem request_stays {s after : MainLoop} {label : MainLabel}
    (step : signalledProgram.Step s label after) (asked : s.col.refreshRequested = true)
    (other : ∀ w, label ≠ .background (.startSweep w)) : after.col.refreshRequested = true := by
  refine signalledProgram_collector (P := fun c => c.refreshRequested = true) step (fun _ => asked)
    (fun inner next seen step => ?_) fun _ _ kept _ => kept
  rcases step.request_kept asked with kept | ⟨w, rfl⟩
  · exact kept
  · exact absurd (MainLabel.collector_background seen rfl) (other w)

theorem CollectorStep.making {c next : Collector} {label : CollectorLabel}
    (step : CollectorStep c label next) (there : c.thread.making = true) (counts : label ≠ .bump) :
    next.thread.making = true := by
  cases step with
  | bump => exact absurd rfl counts
  | stamp | sweep | relock | updateSys | publish => rfl
  | tick | acquire | release | request | setInterval | stop | join => exact there
  | readClock here | lock here | sleep here | wake here | timeout here | reacquire here
  | leaveWait here | giveUp here | startSweep here | unlock here =>
      rw [here] at there
      cases there

theorem sweep_stays {s after : MainLoop} {label : MainLabel}
    (step : signalledProgram.Step s label after) (there : s.col.thread.making = true)
    (other : label ≠ .background .bump) : after.col.thread.making = true := by
  refine signalledProgram_collector (P := fun c => c.thread.making = true) step (fun _ => there)
    (fun inner next seen step => step.making there fun same => other ?_) fun _ _ kept asleep => ?_
  · subst same
    exact MainLabel.collector_background seen rfl
  · rw [asleep] at kept
    cases kept

theorem generation_step {s after : MainLoop} {label : MainLabel}
    (step : signalledProgram.Step s label after) :
    after.col.generation = s.col.generation + UInt64.ofNat (published [label]) := by
  refine signalledProgram_collector (P := fun c =>
    c.generation = s.col.generation + UInt64.ofNat (published [label])) step (fun none => ?_)
    (fun inner next seen step => ?_) fun _ _ kept _ => kept
  · simp [published, none]
  · rw [step.generation]
    cases its : inner.isBump <;> simp [published, seen, its]

/-! ## What a step does to the main thread -/

/-- How many steps the main thread is at most from its next frame, if one is due. -/
def MainPoint.untilFrame : MainPoint → Nat
  | .painting => 1
  | .comparing => 2
  | .redraw => 3
  | .signalling _ _ | .returning _ => 4
  | .asking _ _ _ | .inside _ => 5
  | .found _ _ _ | .calling _ => 6
  | .finding _ _ => 7
  | .seeking _ _ => 8
  | .input => 9
  | .testing => 10
  | .painted => 11
  | .joining | .finished => 0

theorem MainLoop.handleKey_untilFrame (s : MainLoop) (ch : Int) :
    (s.handleKey ch).main.untilFrame < 9 := by
  unfold handleKey
  cases commandOf ch with
  | none => simp [MainPoint.untilFrame]
  | some command =>
      cases command with
      | enter | resume =>
          simp only [runCommand]
          split <;> simp [MainPoint.untilFrame]
      | signal action =>
          simp only [runCommand]
          split
          · simp [MainPoint.untilFrame]
          · split <;> simp [MainPoint.untilFrame]
      | _ => simp [runCommand, MainPoint.untilFrame]

/-- In the loop every step of the main thread brings it nearer to its next frame. -/
theorem MainStep.untilFrame {s next : MainLoop} {label : MainLabel} (step : MainStep s label next)
    (orderly : s.Orderly) (going : s.running = true) (due : s.main = .painting → s.needsRedraw = true)
    (own : label.ofMain = true) (other : label.isFrame = false) :
    next.main.untilFrame < s.main.untilFrame := by
  have inLoop : s.main.shutting = false := by
    by_contra ending
    rw [Bool.not_eq_false] at ending
    rw [orderly.quitting ending] at going
    cases going
  cases step with
  | background | interrupt => cases own
  | test there =>
      rw [there, going]
      simp [MainPoint.untilFrame]
  | key there =>
      rw [there]
      exact s.handleKey_untilFrame _
  | lock waiting step =>
      cases there : s.main with
      | calling call | seeking | redraw =>
          rw [there] at waiting
          cases waiting
          simp [MainPoint.untilFrame]
      | _ => rw [there] at waiting; cases waiting
  | call there step =>
      rw [there]
      simp [MainPoint.untilFrame]
  | @returned call col there step =>
      rw [there]
      cases call with
      | stop =>
          rw [there] at inLoop
          cases inLoop
      | _ => simp [MainPoint.untilFrame, MainLoop.afterCall]
  | looked there step =>
      rw [there]
      cases ‹Option Bytes› <;> simp [MainPoint.untilFrame, MainLoop.afterLookup]
  | confirm there =>
      rw [there]
      unfold MainLoop.afterConfirm
      split <;> simp [MainPoint.untilFrame]
  | compare there =>
      rw [there]
      unfold MainLoop.compareGenerations
      split <;> simp [MainPoint.untilFrame]
  | frame there => cases other
  | skip there clean =>
      rw [due there] at clean
      cases clean
  | join there step =>
      rw [there] at inLoop
      cases inLoop
  | find there | kill there | refused there | release there =>
      rw [there]
      simp [MainPoint.untilFrame, MainLoop.afterFind, MainLoop.report]

/-- What the main thread remembers of the generations changes where it compares them. -/
theorem MainStep.drawn {s next : MainLoop} {label : MainLabel} (step : MainStep s label next) :
    label = .compare ∧ next.drawnGeneration = next.col.generation ∧
        (s.drawnGeneration ≠ s.col.generation → next.needsRedraw = true) ∨
      label ≠ .compare ∧ next.drawnGeneration = s.drawnGeneration := by
  cases step with
  | key there => exact .inr ⟨by simp, (s.handleKey_kept _).drawnGeneration⟩
  | returned there step => cases ‹ApiCall› <;> exact .inr ⟨by simp, rfl⟩
  | looked there step => cases ‹Option Bytes› <;> exact .inr ⟨by simp, rfl⟩
  | confirm there =>
      unfold MainLoop.afterConfirm
      split <;> exact .inr ⟨by simp, rfl⟩
  | compare there =>
      unfold MainLoop.compareGenerations
      split
      · exact .inl ⟨rfl, rfl, fun _ => rfl⟩
      · rename_i same
        rw [not_not] at same
        exact .inl ⟨rfl, same.symm, fun apart => absurd same.symm apart⟩
  | _ => exact .inr ⟨by simp, rfl⟩

/-! ## Generations along an infinite run -/

section

variable {b : signalledProgram.Behaviour}

theorem generation_at (i count : ℕ) :
    (b.state (i + count)).col.generation =
      (b.state i).col.generation + UInt64.ofNat (published (b.labels i count)) := by
  induction count with
  | zero => simp [LabelledSystem.Behaviour.labels, published]
  | succ count ih =>
      rw [b.labels_succ, published_append, UInt64.ofNat_add, ← UInt64.add_assoc, ← ih]
      exact generation_step (b.step (i + count))

/-- The generation remembered is the one the collector had at a moment since which none
    were compared. -/
structure LooksBack (b : signalledProgram.Behaviour) (i count : ℕ) : Prop where
  quiet : ∀ label ∈ b.labels i count, label ≠ .compare
  drawn : (b.state (i + count)).drawnGeneration = (b.state i).col.generation

theorem drawn_step (n : ℕ) :
    b.label n = .compare ∧
        (b.state (n + 1)).drawnGeneration = (b.state (n + 1)).col.generation ∧
        ((b.state n).drawnGeneration ≠ (b.state n).col.generation →
          (b.state (n + 1)).needsRedraw = true) ∨
      b.label n ≠ .compare ∧
        (b.state (n + 1)).drawnGeneration = (b.state n).drawnGeneration := by
  obtain ⟨next, step, after⟩ := b.step n
  have kept := next.signalled_keeps (b.label n)
  have generation : (next.signalled (b.label n)).col.generation = next.col.generation := by
    rcases kept.col with same | ⟨_, _, woken⟩
    · rw [same]
    · rw [woken]
  rw [after, kept.drawnGeneration, kept.needsRedraw, generation]
  exact step.drawn

theorem LooksBack.snoc {i count : ℕ} (back : LooksBack b i count)
    (other : b.label (i + count) ≠ .compare)
    (same : (b.state (i + count + 1)).drawnGeneration = (b.state (i + count)).drawnGeneration) :
    LooksBack b i (count + 1) := by
  refine ⟨fun label member => ?_, same.trans back.drawn⟩
  rw [b.labels_succ] at member
  rcases List.mem_append.mp member with earlier | last
  · exact back.quiet label earlier
  · exact List.mem_singleton.mp last ▸ other

theorem looks_back (initial : signalledProgram.Init (b.state 0)) (n : ℕ) :
    ∃ i count, i + count = n ∧ LooksBack b i count := by
  induction n with
  | zero =>
      refine ⟨0, 0, rfl, by simp [LabelledSystem.Behaviour.labels], ?_⟩
      obtain ⟨_, _, _, _, _, _, _, _, _, start⟩ := initial
      rw [Nat.add_zero, start]
      rfl
  | succ n ih =>
      obtain ⟨i, count, rfl, back⟩ := ih
      rcases drawn_step (b := b) (i + count) with ⟨_, same, _⟩ | ⟨other, same⟩
      · exact ⟨i + count + 1, 0, rfl, by simp [LabelledSystem.Behaviour.labels], same⟩
      · exact ⟨i, count + 1, rfl, back.snoc other same⟩

/-- Between two comparisons the counter does not come round to where it was. -/
def Followed (b : signalledProgram.Behaviour) : Prop :=
  ∀ i count, (∀ label ∈ b.labels i count, label ≠ .compare) →
    published (b.labels i count) < 2 ^ 64

/-- A frame is due, or will be at the next comparison. -/
def FrameDue (b : signalledProgram.Behaviour) (n : ℕ) : Prop :=
  (b.state n).needsRedraw = true ∨
    ∃ i count, i + count = n ∧ LooksBack b i count ∧ 0 < published (b.labels i count)

theorem LooksBack.differs {i count : ℕ} (back : LooksBack b i count) (followed : Followed b)
    (counted : 0 < published (b.labels i count)) :
    (b.state (i + count)).drawnGeneration ≠ (b.state (i + count)).col.generation := by
  have few := followed i count back.quiet
  rw [back.drawn, generation_at i count]
  intro same
  have value := congrArg UInt64.toNat (UInt64.left_eq_add.mp same)
  rw [UInt64.toNat_ofNat', Nat.mod_eq_of_lt few, UInt64.toNat_zero] at value
  omega

theorem FrameDue.next {n : ℕ} (due : FrameDue b n) (followed : Followed b)
    (other : (b.label n).isFrame = false) : FrameDue b (n + 1) := by
  have undrawn : (b.state (n + 1)).needsRedraw = true ∨
      (b.state (n + 1)).needsRedraw = (b.state n).needsRedraw := by
    obtain ⟨next, step, after⟩ := b.step n
    rw [after, (next.signalled_keeps (b.label n)).needsRedraw]
    have noFrame : ∀ shown, b.label n ≠ .frame shown := by
      intro shown same
      rw [same] at other
      cases other
    rcases step.undrawn noFrame with due | ⟨same, _⟩
    · exact .inl due
    · exact .inr same
  rcases due with now | ⟨i, count, rfl, back, counted⟩
  · rcases undrawn with due | same
    · exact .inl due
    · exact .inl (same.trans now)
  · rcases drawn_step (b := b) (i + count) with ⟨_, _, due⟩ | ⟨quiet, same⟩
    · exact .inl (due (back.differs followed counted))
    · refine .inr ⟨i, count + 1, rfl, back.snoc quiet same, ?_⟩
      rw [b.labels_succ, published_append]
      omega

variable (initial : signalledProgram.Init (b.state 0))
include initial

/-- Between the comparison and the unlock a frame that is due is known to be. -/
theorem FrameDue.known {n : ℕ} (due : FrameDue b n) (followed : Followed b)
    (there : (b.state n).main = .painting ∨ (b.state n).main = .painted) :
    (b.state n).needsRedraw = true := by
  rcases due with now | ⟨i, count, rfl, back, counted⟩
  · exact now
  · have same := (sound_at initial (i + count)).synced.generation there
    exact absurd same (back.differs followed counted)

theorem never_stops (going : ∀ m, (b.state m).running = true) (n : ℕ) :
    (b.state n).col.stopping = false := by
  have orderly := (sound_at initial n).orderly
  rw [orderly.stopping]
  refine (MainPoint.stopped_shutting ?_).1
  by_contra ending
  rw [Bool.not_eq_false] at ending
  have quit := orderly.quitting ending
  rw [going n] at quit
  cases quit

/-- A thread that has been asked begins a sweep. -/
theorem request_starts (fair : FairlyScheduled b) (going : ∀ m, (b.state m).running = true) {n : ℕ}
    (asked : (b.state n).col.refreshRequested = true) :
    ∃ m ≥ n, ∃ w, b.label m = .background (.startSweep w) := by
  have awake : ∀ n, (b.state n).col.refreshRequested = true →
      ∀ deadline, (b.state n).col.thread ≠ .asleep deadline := by
    intro n asked deadline asleep
    have quiet := ((sound_at initial n).undisturbed deadline asleep).2
    rw [asked] at quiet
    cases quiet
  refine reaches_when_free initial fair fair.thread
    (fun n => (b.state n).col.refreshRequested = true)
    (fun n => (b.state n).col.thread.left (b.state n).col.proc) ?_ ?_ asked
  · intro n asked
    by_cases starts : ∃ w, b.label n = .background (.startSweep w)
    · exact .inl ⟨n, le_rfl, starts⟩
    · have other : ∀ w, b.label n ≠ .background (.startSweep w) := fun w same => starts ⟨w, same⟩
      have noWait : b.label n ≠ .background .sleep := by
        intro same
        obtain ⟨next, step, _⟩ := b.step n
        rw [same] at step
        cases step with
        | background _ step =>
            cases step with
            | sleep _ _ quiet =>
                rw [asked] at quiet
                cases quiet
      have nearer := thread_nearer (b.step n) (awake n asked) other noWait
      exact .inr ⟨request_stays (b.step n) asked other, nearer.near, nearer.own⟩
  · intro n asked free
    refine .inr (thread_enabled ?_ (awake n asked) fun _ => free)
    intro exited
    have stopped := (sound_at initial n).orderly.leaving (.inr exited)
    rw [never_stops initial going n] at stopped
    cases stopped

/-- A sweep that has begun is counted. -/
theorem sweep_counts (fair : FairlyScheduled b) {n : ℕ}
    (there : (b.state n).col.thread.making = true) :
    ∃ m ≥ n, b.label m = .background .bump := by
  have apart : ∀ n, (b.state n).col.thread.making = true → ∀ point : ThreadPoint,
      point.making = false → (b.state n).col.thread ≠ point := by
    intro n there point outside same
    rw [same, outside] at there
    cases there
  refine reaches_when_free initial fair fair.thread
    (fun n => (b.state n).col.thread.making = true)
    (fun n => (b.state n).col.thread.left (b.state n).col.proc) ?_ ?_ there
  · intro n there
    by_cases counts : b.label n = .background .bump
    · exact .inl ⟨n, le_rfl, counts⟩
    · have nearer := thread_nearer (b.step n) (fun _ => apart n there _ rfl) ?_ ?_
      · exact .inr ⟨sweep_stays (b.step n) there counts, nearer.near, nearer.own⟩
      · intro w same
        obtain ⟨next, step, _⟩ := b.step n
        rw [same] at step
        cases step with
        | background _ step =>
            cases step with
            | startSweep here => exact apart n there _ rfl here
      · intro same
        obtain ⟨next, step, _⟩ := b.step n
        rw [same] at step
        cases step with
        | background _ step =>
            cases step with
            | sleep here => exact apart n there _ rfl here
  · intro n there free
    exact .inr (thread_enabled (apart n there _ rfl) (fun _ => apart n there _ rfl) fun _ => free)

/-- A frame that is due is painted. -/
theorem due_frame_comes (fair : FairlyScheduled b) (going : ∀ m, (b.state m).running = true)
    (followed : Followed b) {n : ℕ} (due : FrameDue b n) :
    ∃ m ≥ n, (b.label m).isFrame = true := by
  refine reaches_when_free initial fair fair.main (FrameDue b)
    (fun n => (b.state n).main.untilFrame) ?_ ?_ due
  · intro n due
    cases frame : (b.label n).isFrame with
    | true => exact .inl ⟨n, le_rfl, frame⟩
    | false =>
        obtain ⟨next, step, after⟩ := b.step n
        have kept := next.signalled_keeps (b.label n)
        have later := due.next followed frame
        have nearer := step.untilFrame (sound_at initial n).orderly (going n)
          (fun there => due.known initial followed (.inl there))
        rw [after, kept.main]
        refine .inr ⟨later, ?_, fun own => nearer own frame⟩
        cases own : (b.label n).ofMain with
        | true => exact (nearer own frame).le
        | false => exact (congrArg _ (step.main_kept own)).le
  · intro n due free
    have sound := sound_at initial n
    have looping : (b.state n).main.shutting = false := by
      by_contra ending
      rw [Bool.not_eq_false] at ending
      have quit := sound.orderly.quitting ending
      rw [going n] at quit
      cases quit
    refine .inr (main_enabled sound (MainPoint.stopped_shutting looping).2 (fun _ _ => free) ?_)
    intro there
    rw [there] at looping
    cases looping

omit initial in
/-- In every fair run that goes on, a refresh that was asked for is followed by a sweep that
    begins after it, by the count of a generation, and by a frame drawn from the figures of
    that moment. Between two comparisons of the main thread fewer than 2 ^ 64 generations are
    counted (`Followed`), and a prompt that is open is answered, as the run is fair. -/
theorem refresh_reaches_screen (initial : signalledProgram.Init (b.state 0))
    (fair : FairlyScheduled b) (going : ∀ m, (b.state m).running = true) (followed : Followed b)
    {n : ℕ} (asked : b.label n = .call .requestRefresh) :
    ∃ i j k, n < i ∧ i < j ∧ j < k ∧ (∃ w, b.label i = .background (.startSweep w)) ∧
      b.label j = .background .bump ∧ ∃ mem width height, b.label k =
        .frame ((b.state k).ui.draw mem width height (b.state k).col.sys (b.state k).col.proc).2 := by
  have request : (b.state (n + 1)).col.refreshRequested = true := by
    refine signalledProgram_collector (P := fun c => c.refreshRequested = true) (b.step n)
      (fun none => ?_) (fun inner next seen step => ?_) fun _ _ kept _ => kept
    · rw [asked] at none
      cases none
    · rw [asked] at seen
      cases seen
      cases step
      rfl
  obtain ⟨i, afterRequest, w, starts⟩ := request_starts initial fair going request
  have making : (b.state (i + 1)).col.thread.making = true := by
    refine signalledProgram_collector (P := fun c => c.thread.making = true) (b.step i)
      (fun none => ?_) (fun inner next seen step => ?_) fun _ _ kept asleep => ?_
    · rw [starts] at none
      cases none
    · rw [starts] at seen
      cases seen
      cases step
      rfl
    · rw [asleep] at kept
      cases kept
  obtain ⟨j, afterStart, counts⟩ := sweep_counts initial fair making
  have due : FrameDue b (j + 1) := by
    obtain ⟨first, count, rfl, back⟩ := looks_back initial j
    rcases drawn_step (b := b) (first + count) with ⟨compares, _⟩ | ⟨quiet, same⟩
    · rw [counts] at compares
      cases compares
    · refine .inr ⟨first, count + 1, rfl, back.snoc quiet same, ?_⟩
      rw [b.labels_succ, published_append, counts]
      exact Nat.lt_add_left _ Nat.one_pos
  obtain ⟨k, afterCount, frame⟩ := due_frame_comes initial fair going followed due
  refine ⟨i, j, k, afterRequest, afterStart, afterCount, ⟨w, starts⟩, counts, ?_⟩
  obtain ⟨next, step, _⟩ := b.step k
  generalize b.label k = label at step frame
  cases step with
  | @frame mem width height there due => exact ⟨mem, width, height, rfl⟩
  | _ => cases frame

end

/-! ## R pressed once, and then nothing

The thread makes the generation it was asked for and goes to sleep.
-/

theorem asleep_stuck {s : MainLoop} {deadline : Timespec} (there : s.col.thread = .asleep deadline) :
    ¬ signalledProgram.Enabled (fun label => label.ofThread = true) s := by
  rintro ⟨label, _, mine, next, step, _⟩
  cases step with
  | background own step =>
      cases step with
      | tick | wake | timeout => cases mine
      | acquire | release | request | setInterval | stop | join => cases own
      | readClock here | lock here | sleep here | reacquire here | leaveWait here | giveUp here
      | startSweep here | stamp here | sweep here | relock here | updateSys here | publish here
      | bump here | unlock here =>
          rw [there] at here
          cases here
  | _ => cases mine

/-- The iterations in which no key is pressed and no frame is due. -/
def MainLoop.idle (s : MainLoop) : ℕ → MainLoop
  | 0 => s
  | 1 => { s with main := .input }
  | 2 => { s with main := .redraw }
  | 3 => { s with col := { s.col with lock := .main }, main := .comparing }
  | 4 => { s with col := { s.col with lock := .main }, main := .painting }
  | _ => { s with col := { s.col with lock := .main }, main := .painted }

def idleLabel : ℕ → MainLabel
  | 0 => .test
  | 1 => .key (-1)
  | 2 => .lock
  | 3 => .compare
  | 4 => .skip
  | _ => .unlock

theorem idle_step {s : MainLoop} (there : s.main = .testing) (running : s.running = true)
    (free : s.col.lock = .free) (drawn : s.col.generation = s.drawnGeneration)
    (clean : s.needsRedraw = false) :
    ∀ k < 6, signalledProgram.Step (s.idle k) (idleLabel k) (s.idle ((k + 1) % 6)) := by
  obtain ⟨⟨_, _, _, _, _, _, _, _, _, _, _⟩, _, _, _, _, _, _⟩ := s
  cases there
  cases running
  cases free
  cases drawn
  cases clean
  intro k small
  match k, small with
  | 0, _ => exact ⟨_, .test rfl, rfl⟩
  | 1, _ => exact ⟨_, .key rfl, rfl⟩
  | 2, _ => exact ⟨_, .lock rfl (.acquire rfl), rfl⟩
  | 3, _ =>
      refine ⟨_, .compare rfl, ?_⟩
      simp [MainLoop.compareGenerations, MainLoop.idle, MainLoop.signalled, idleLabel,
        MainLabel.collector?]
  | 4, _ => exact ⟨_, .skip rfl rfl, rfl⟩
  | 5, _ => exact ⟨_, .release rfl (.release rfl), rfl⟩

theorem idleLabel_quiet (k : ℕ) : (idleLabel k).ofMain = true ∧ published [idleLabel k] = 0 := by
  match k with
  | 0 | 1 | 2 | 3 | 4 | _ + 5 => exact ⟨rfl, rfl⟩

theorem MainLoop.idle_kept (s : MainLoop) (k : ℕ) :
    (s.idle k).running = s.running ∧ (s.idle k).col.thread = s.col.thread := by
  match k with
  | 0 | 1 | 2 | 3 | 4 | _ + 5 => exact ⟨rfl, rfl⟩

/-- A run that ends in idle iterations, with the thread asleep. -/
structure IdleFrom (b : signalledProgram.Behaviour) (n : ℕ) : Prop where
  running : ∀ m, (b.state (n + m)).running = true
  asleep : ∃ deadline, ∀ m, (b.state (n + m)).col.thread = .asleep deadline
  label : ∀ m, (b.label (n + m)).ofMain = true ∧ published [b.label (n + m)] = 0

namespace IdleFrom

variable {b : signalledProgram.Behaviour} {n : ℕ}

theorem fair (idle : IdleFrom b n) : FairlyScheduled b where
  main m _ := ⟨n + m, Nat.le_add_left m n, (idle.label m).1⟩
  thread := by
    obtain ⟨deadline, asleep⟩ := idle.asleep
    refine .of_stuck fun m (later : m ≥ n) => ?_
    obtain ⟨k, rfl⟩ := Nat.exists_eq_add_of_le later
    exact asleep_stuck (asleep k)

theorem going (idle : IdleFrom b n) (m : ℕ) : (b.state m).running = true := by
  by_contra ended
  rw [Bool.not_eq_true] at ended
  have kept : ∀ s label t, signalledProgram.Step s label t → s.running = false →
      t.running = false := by
    rintro s label _ ⟨next, step, rfl⟩ ended
    rw [(next.signalled_keeps label).running]
    exact step.quit_kept ended
  have later := LabelledSystem.Behaviour.keeps kept (Nat.le_add_left m n) ended
  rw [idle.running m] at later
  cases later

theorem published_after (idle : IdleFrom b n) (count : ℕ) : published (b.labels n count) = 0 := by
  induction count with
  | zero => rfl
  | succ count ih => rw [b.labels_succ, published_append, ih, (idle.label count).2]

theorem followed (idle : IdleFrom b n) (few : published (b.labels 0 n) < 2 ^ 64) : Followed b := by
  intro i count _
  have front : published (b.labels 0 (n + (i + count))) = published (b.labels 0 n) := by
    rw [b.labels_add, published_append, Nat.zero_add, idle.published_after, Nat.add_zero]
  rw [Nat.add_comm, b.labels_add, b.labels_add, published_append, published_append,
    Nat.zero_add] at front
  omega

end IdleFrom

theorem refresh_reaches_screen_example :
    ∃ b : signalledProgram.Behaviour, b.label 3 = .call .requestRefresh ∧
      ∃ i j k, 3 < i ∧ i < j ∧ j < k ∧ (∃ w, b.label i = .background (.startSweep w)) ∧
        b.label j = .background .bump ∧ ∃ mem width height, b.label k = .frame
          ((b.state k).ui.draw mem width height (b.state k).col.sys (b.state k).col.proc).2 := by
  let asked : MainLoop :=
    { exampleMain with
      col := { exampleMain.col with refreshRequested := true }
      ui := exampleMain.ui.setStatus (text "Refreshed") false
      main := .redraw }
  let swept : ProcessMonitor := publish exampleStamps (collect emptySweep exampleSample)
  let made : Collector :=
    { asked.col with
      refreshRequested := false, last := asked.col.clock, proc := swept,
      sys := (exampleSystem.update exampleReads).2, generation := 1,
      thread := .asleep (addMs asked.col.clock asked.col.intervalMs) }
  let drawn := asked.ui.draw ⟨true, true, ⟨true, none⟩⟩ 100 40 made.sys made.proc
  let cycle : List MainLabel :=
    [.background .readClock, .background .lock, .background .leaveWait,
      .background (.startSweep emptySweep), .background .stamp, .background .sweep,
      .background .sweep, .background .sweep, .background .relock,
      .background (.updateSys exampleReads), .background (.publish exampleStamps),
      .background .bump, .background .sleep]
  let front : List MainLabel :=
    [.test, .key 114, .lock, .call .requestRefresh, .unlock] ++
      (cycle ++ [.lock, .compare, .frame drawn.2, .unlock])
  let waiting : MainLoop := { asked with col := made }
  let held : MainLoop := { waiting with col := { made with lock := .main }, main := .comparing }
  let compared : MainLoop :=
    { held with needsRedraw := true, drawnGeneration := 1, main := .painting }
  have request : signalledProgram.Run exampleMain
      [.test, .key 114, .lock, .call .requestRefresh, .unlock] asked :=
    .cons ⟨_, .test rfl, rfl⟩ <| .cons ⟨_, .key rfl, rfl⟩ <|
      .cons ⟨_, .lock rfl (.acquire rfl), rfl⟩ <| .cons ⟨_, .call rfl (.request rfl), rfl⟩ <|
      .single ⟨_, .returned rfl (.release rfl), rfl⟩
  have generation : signalledProgram.Run asked cycle waiting :=
    .cons ⟨_, .background rfl (.readClock rfl), rfl⟩ <|
      .cons ⟨_, .background rfl (.lock rfl rfl), rfl⟩ <|
      .cons ⟨_, .background rfl (.leaveWait rfl (.inr rfl)), rfl⟩ <|
      .cons ⟨_, .background rfl (.startSweep rfl rfl), rfl⟩ <|
      .cons ⟨_, .background rfl (.stamp rfl), rfl⟩ <|
      .cons ⟨_, .background rfl (.sweep rfl rfl), rfl⟩ <|
      .cons ⟨_, .background rfl (.sweep rfl rfl), rfl⟩ <|
      .cons ⟨_, .background rfl (.sweep rfl rfl), rfl⟩ <|
      .cons ⟨_, .background rfl (.relock rfl rfl), rfl⟩ <|
      .cons ⟨_, .background rfl (.updateSys rfl), rfl⟩ <|
      .cons ⟨_, .background rfl (.publish rfl), rfl⟩ <|
      .cons ⟨_, .background rfl (.bump rfl), rfl⟩ <|
      .single ⟨_, .background rfl (.sleep rfl rfl rfl), rfl⟩
  have compares : signalledProgram.Step held .compare compared := by
    have stale : held.col.generation ≠ held.drawnGeneration := by decide
    refine ⟨_, .compare rfl, ?_⟩
    rw [MainLoop.compareGenerations, if_pos stale]
    rfl
  have unlocks : ∀ s : MainLoop, s = s.signalled .unlock := fun _ => rfl
  let painted : MainLoop :=
    { compared with ui := drawn.1, needsRedraw := false, main := .painted }
  let ended : MainLoop :=
    { painted with col := { painted.col with lock := .free }, main := .testing }
  have paints : MainStep compared (.frame drawn.2) painted := .frame rfl rfl
  have shows : signalledProgram.Run waiting [.lock, .compare, .frame drawn.2, .unlock] ended :=
    .cons ⟨held, .lock rfl (.acquire rfl), rfl⟩ <| .cons compares <|
      .cons ⟨painted, paints, rfl⟩ <| .single ⟨ended, .release rfl (.release rfl), unlocks _⟩
  have run : signalledProgram.Run exampleMain front ended :=
    request.append (generation.append shows)
  let rounds : signalledProgram.Behaviour :=
    .rounds ended.idle idleLabel (idle_step rfl rfl rfl rfl rfl) (by decide)
  have before : signalledProgram.Run exampleMain front (rounds.state 0) := run
  obtain ⟨b, begins, labels, later⟩ := rounds.exists_before before
  have idle : IdleFrom b front.length := by
    refine ⟨fun m => ?_, ⟨addMs asked.col.clock asked.col.intervalMs, fun m => ?_⟩, fun m => ?_⟩
    · rw [(later m).1]
      exact (ended.idle_kept (m % 6)).1
    · rw [(later m).1]
      exact (ended.idle_kept (m % 6)).2
    · rw [(later m).2]
      exact idleLabel_quiet (m % 6)
  have few : published (b.labels 0 front.length) < 2 ^ 64 := by
    rw [labels]
    decide
  have asks : b.label 3 = .call .requestRefresh := by
    have third := congrArg (fun labels => labels[3]?) labels
    exact Option.some.inj third
  have initial : signalledProgram.Init (b.state 0) := by
    rw [begins]
    exact ⟨_, _, _, _, _, _, _, _, _, rfl⟩
  exact ⟨b, asks, refresh_reaches_screen initial idle.fair idle.going (idle.followed few) asks⟩

end KernelMonitor
