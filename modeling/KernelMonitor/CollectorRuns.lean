import KernelMonitor.Collector

/-! # Requests, stopping and what changes unlocked

Properties of every run of the collector, with any main thread that keeps to its
interface.
-/

namespace KernelMonitor

open Library

/-! ## Refresh requests -/

/-- Only the start of a sweep clears the request flag. -/
theorem CollectorStep.request_kept {c next : Collector} {label : CollectorLabel}
    (step : CollectorStep c label next) (asked : c.refreshRequested = true) :
    next.refreshRequested = true ∨ ∃ w, label = .startSweep w := by
  cases step with
  | startSweep => exact .inr ⟨_, rfl⟩
  | request => exact .inl rfl
  | _ => exact .inl asked

theorem CollectorStep.stopping_kept {c next : Collector} {label : CollectorLabel}
    (step : CollectorStep c label next) (stopped : c.stopping = true) : next.stopping = true := by
  cases step with
  | stop => rfl
  | _ => exact stopped

/-! ## Stopping -/

/-- The thread is on its way to a publish. -/
def ThreadPoint.midSweep : ThreadPoint → Bool
  | .stamping _ | .sweeping _ _ | .updating | .publishing => true
  | _ => false

def CollectorLabel.isPublish : CollectorLabel → Bool
  | .publish _ => true
  | _ => false

/-- Once stopping is set no sweep begins, and a publish ends the sweep it belongs to. -/
theorem CollectorStep.winding_down {c next : Collector} {label : CollectorLabel}
    (step : CollectorStep c label next) (stopped : c.stopping = true) :
    (∀ w, label ≠ .startSweep w) ∧
      label.isPublish.toNat + next.thread.midSweep.toNat ≤ c.thread.midSweep.toNat := by
  cases step with
  | startSweep there going => rw [stopped] at going; cases going
  | reacquire there free =>
      cases ‹Bool› <;> simp [CollectorLabel.isPublish, ThreadPoint.midSweep]
  | _ => simp_all [CollectorLabel.isPublish, ThreadPoint.midSweep]

/-- A thread that has exited does nothing, and nobody else writes the monitors. -/
theorem CollectorStep.exited_kept {c next : Collector} {label : CollectorLabel}
    (step : CollectorStep c label next) (exited : c.thread = .exited) :
    next.thread = .exited ∧ next.proc = c.proc ∧ next.sys = c.sys ∧
      next.generation = c.generation := by
  cases step <;> simp_all

/-- No refresh request is lost; after a stop no sweep starts and at most one sample is
    published; and once the join is through the thread has exited for good. A sweep starts
    where the thread commits itself to it, under the lock. -/
theorem collector_requests_and_stop {trace : List CollectorLabel} {c : Collector}
    (history : collectorSystem.Trace trace c) :
    (∀ before after, trace = before ++ .request :: after →
      c.refreshRequested = true ∨ (∃ w, .startSweep w ∈ after) ∨ c.stopping = true) ∧
    (∀ before after, trace = before ++ .stop :: after →
      (∀ w, .startSweep w ∉ after) ∧ after.countP CollectorLabel.isPublish ≤ 1) ∧
    (∀ before after, trace = before ++ .join :: after →
      ∃ joined, collectorSystem.Trace (before ++ [.join]) joined ∧
        joined.thread = .exited ∧ c.thread = .exited ∧ c.proc = joined.proc ∧
        c.sys = joined.sys ∧ c.generation = joined.generation) := by
  refine ⟨?_, ?_, ?_⟩
  · intro before after whole
    subst whole
    obtain ⟨_, asked, _, step, _, run⟩ := history.around
    refine run.induct (P := fun labels c => c.refreshRequested = true ∨
      (∃ w, .startSweep w ∈ labels) ∨ c.stopping = true) ?_ ?_
    · cases step
      exact .inl rfl
    · intro labels c label next _ known step
      rcases known with flag | ⟨w, started⟩ | stopped
      · rcases CollectorStep.request_kept step flag with kept | ⟨w, rfl⟩
        · exact .inl kept
        · exact .inr (.inl ⟨w, by simp⟩)
      · exact .inr (.inl ⟨w, List.mem_append_left _ started⟩)
      · exact .inr (.inr (CollectorStep.stopping_kept step stopped))
  · intro before after whole
    subst whole
    obtain ⟨_, stopped, _, step, _, run⟩ := history.around
    have ending := run.induct (P := fun labels c => c.stopping = true ∧
      (∀ w, .startSweep w ∉ labels) ∧
        labels.countP CollectorLabel.isPublish + c.thread.midSweep.toNat ≤ 1) ?_ ?_
    · exact ⟨ending.2.1, by have := ending.2.2; omega⟩
    · cases step
      exact ⟨rfl, by simp, by simpa using Bool.toNat_le _⟩
    · intro labels c label next _ known step
      obtain ⟨stopped, none, count⟩ := known
      obtain ⟨other, fewer⟩ := CollectorStep.winding_down step stopped
      refine ⟨CollectorStep.stopping_kept step stopped, fun w member => ?_, ?_⟩
      · rcases List.mem_append.mp member with earlier | last
        · exact none w earlier
        · exact other w (List.mem_singleton.mp last).symm
      · have one : (if label.isPublish = true then 1 else 0) = label.isPublish.toNat := by
          cases label.isPublish <;> rfl
        rw [List.countP_append, List.countP_singleton, one]
        omega
  · intro before after whole
    subst whole
    obtain ⟨_, joined, _, step, upTo, run⟩ := history.around
    have exited : joined.thread = .exited := by
      cases step
      assumption
    have later := run.keeps (P := fun c => c.thread = .exited ∧ c.proc = joined.proc ∧
      c.sys = joined.sys ∧ c.generation = joined.generation) ?_ ⟨exited, rfl, rfl, rfl⟩
    · exact ⟨joined, upTo, exited, later⟩
    · intro c label next step known
      obtain ⟨there, proc, sys, generation⟩ := known
      obtain ⟨still, sameProc, sameSys, sameGeneration⟩ := CollectorStep.exited_kept step there
      exact ⟨still, sameProc.trans proc, sameSys.trans sys, sameGeneration.trans generation⟩

/-! A request, and a stop while the sweep it has brought about is on its way. -/

def exampleCollector : Collector := .start .zero (.init exampleHost) 2000 ⟨10, 0⟩

def exampleCalls : List CollectorLabel :=
  [.acquire, .request, .release, .readClock, .lock, .leaveWait, .startSweep emptySweep, .stamp,
    .acquire, .stop, .release, .sweep, .sweep, .sweep, .relock, .updateSys exampleReads,
    .publish exampleStamps, .bump, .leaveWait, .giveUp, .unlock, .join]

theorem example_calls :
    ∃ c, collectorSystem.Trace exampleCalls c ∧ c.refreshRequested = false ∧ c.generation = 1 :=
  ⟨_, ⟨exampleCollector, ⟨_, _, _, _, rfl⟩,
    .cons (.acquire rfl) <| .cons (.request rfl) <| .cons (.release rfl) <|
    .cons (.readClock rfl) <| .cons (.lock rfl rfl) <| .cons (.leaveWait rfl (.inr rfl)) <|
    .cons (.startSweep rfl rfl) <| .cons (.stamp rfl) <| .cons (.acquire rfl) <|
    .cons (.stop rfl) <| .cons (.release rfl) <| .cons (.sweep rfl rfl) <|
    .cons (.sweep rfl rfl) <| .cons (.sweep rfl rfl) <| .cons (.relock rfl rfl) <|
    .cons (.updateSys rfl) <| .cons (.publish rfl) <| .cons (.bump rfl) <|
    .cons (.leaveWait rfl (.inl rfl)) <| .cons (.giveUp rfl rfl) <| .cons (.unlock rfl) <|
    .cons (.join (by decide) rfl rfl) (.refl _)⟩, rfl, rfl⟩

theorem collector_requests_and_stop_example :
    ∃ c, collectorSystem.Trace exampleCalls c ∧ c.generation = 1 ∧
      (exampleCalls.drop 10).countP CollectorLabel.isPublish ≤ 1 ∧ c.thread = .exited := by
  obtain ⟨c, history, _, counted⟩ := example_calls
  obtain ⟨_, stops, joins⟩ := collector_requests_and_stop history
  obtain ⟨_, once⟩ := stops (exampleCalls.take 9) (exampleCalls.drop 10) rfl
  obtain ⟨_, _, _, exited, _⟩ := joins (exampleCalls.take 21) [] rfl
  exact ⟨c, history, counted, once, exited⟩

end KernelMonitor
