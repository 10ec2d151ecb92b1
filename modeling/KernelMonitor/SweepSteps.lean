import KernelMonitor.SweepLoop
import KernelMonitor.Ui

/-! # A sweep in progress

`collect` runs without the collector's lock, so a draw may fall between any two of
its writes. A sweep is cut into steps here: its beginning, one step for each PID,
and the write of the scan time at its end.
-/

namespace KernelMonitor

open Library

/-- How far a sweep has come. -/
inductive SweepPoint where
  | start
  | loop (seconds : ℚ) (rest : List Int)
  | finish
  | done

/-- The next step of a sweep; `none` where it has returned. -/
def sweepStep (w : Sweep) : SweepPoint × ProcessMonitor → Option (SweepPoint × ProcessMonitor)
  | (.start, m) =>
      let (seconds, m) := collectBegin w m
      some (.loop seconds m.pids.items, m)
  | (.loop _ [], m) => some (.finish, m)
  | (.loop seconds (pid :: rest), m) =>
      match incomingReserve (w.growIncoming pid) m with
      | none => some (.finish, m)
      | some m => some (.loop seconds rest, collectPid w seconds pid m)
  | (.finish, m) => some (.done, collectEnd w m)
  | (.done, _) => none

/-- One sweep gets from a point to another. -/
def Sweeps (w : Sweep) : SweepPoint × ProcessMonitor → SweepPoint × ProcessMonitor → Prop :=
  Relation.ReflTransGen fun a b => sweepStep w a = some b

/-- What the monitor is once the sweep returns. -/
def sweepResult (w : Sweep) : SweepPoint × ProcessMonitor → ProcessMonitor
  | (.start, m) => collect w m
  | (.loop seconds rest, m) => collectEnd w (collectLoop w seconds rest m)
  | (.finish, m) => collectEnd w m
  | (.done, m) => m

theorem sweepStep_result {w : Sweep} {a b : SweepPoint × ProcessMonitor}
    (step : sweepStep w a = some b) : sweepResult w b = sweepResult w a := by
  obtain ⟨point, m⟩ := a
  cases point with
  | start =>
      cases step
      rfl
  | loop seconds rest =>
      cases rest with
      | nil =>
          cases step
          rfl
      | cons pid rest =>
          simp only [sweepStep] at step
          simp only [sweepResult, collectLoop]
          cases reserved : incomingReserve (w.growIncoming pid) m with
          | none =>
              rw [reserved] at step
              cases step
              rfl
          | some grown =>
              rw [reserved] at step
              cases step
              rfl
  | finish =>
      cases step
      rfl
  | done => cases step

/-- The steps of the loop from any of its points. -/
theorem sweeps_loop (w : Sweep) (seconds : ℚ) (rest : List Int) (m : ProcessMonitor) :
    Sweeps w (.loop seconds rest, m) (.finish, collectLoop w seconds rest m) := by
  induction rest generalizing m with
  | nil => exact .single rfl
  | cons pid rest ih =>
      cases reserved : incomingReserve (w.growIncoming pid) m with
      | none => exact .single (by simp only [sweepStep, collectLoop, reserved])
      | some grown =>
          have next : sweepStep w (.loop seconds (pid :: rest), m) =
              some (.loop seconds rest, collectPid w seconds pid grown) := by
            simp only [sweepStep, reserved]
          simp only [collectLoop, reserved]
          exact .head next (ih _)

/-- Every sweep can be finished, from its beginning. -/
theorem collect_sweeps (w : Sweep) (m : ProcessMonitor) :
    Sweeps w (.start, m) (.done, collect w m) :=
  .head rfl ((sweeps_loop w _ _ _).tail rfl)

/-- However far the steps of a sweep have come, what the rest of them leaves is what the
    sweep as a whole leaves, and they end with it. -/
theorem sweep_steps_collect (w : Sweep) (m after : ProcessMonitor) :
    (∀ point, Sweeps w (.start, m) point → sweepResult w point = collect w m) ∧
      (Sweeps w (.start, m) (.done, after) ↔ after = collect w m) := by
  have same : ∀ point, Sweeps w (.start, m) point → sweepResult w point = collect w m := by
    intro point reached
    induction reached with
    | refl => rfl
    | tail _ step ih => exact (sweepStep_result step).trans ih
  refine ⟨same, same (.done, after), ?_⟩
  rintro rfl
  exact collect_sweeps w m

/-- A step before the last one changes nothing the main thread reads. -/
theorem sweepStep_same {w : Sweep} {point next : SweepPoint} {m after : ProcessMonitor}
    (step : sweepStep w (point, m) = some (next, after)) :
    SameForMain m { after with lastScanMs := m.lastScanMs } ∧
      (after.lastScanMs = m.lastScanMs ∨ after.lastScanMs = w.scanMs ∧ point = .finish) := by
  cases point with
  | start =>
      cases step
      exact ⟨⟨rfl, rfl, rfl, rfl⟩, .inl rfl⟩
  | loop seconds rest =>
      cases rest with
      | nil =>
          cases step
          exact ⟨.refl m, .inl rfl⟩
      | cons pid rest =>
          simp only [sweepStep] at step
          cases reserved : incomingReserve (w.growIncoming pid) m with
          | none =>
              rw [reserved] at step
              cases step
              exact ⟨.refl m, .inl rfl⟩
          | some grown =>
              rw [reserved] at step
              cases step
              have only := (incomingReserve_scratchOnly reserved).trans
                (collectPid_scratchOnly w seconds pid grown)
              exact ⟨⟨only.processes, only.count, only.events, rfl⟩, .inl only.lastScanMs⟩
  | finish =>
      cases step
      exact ⟨⟨rfl, rfl, rfl, rfl⟩, .inr ⟨rfl, rfl⟩⟩
  | done => cases step

end KernelMonitor
