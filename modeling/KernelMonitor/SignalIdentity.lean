import KernelMonitor.ProcessIdentity
import KernelMonitor.SignalTargets

/-! # Which process a signal reaches

The program beside the kernel's table of processes. A process may exit and another may
take its PID at any moment, also while the user is asked. The program names a PID; the
kernel finds whoever holds it when `kill()` is called.
-/

namespace KernelMonitor

open Library

/-- The kernel start time of the process that holds a PID, if one does. -/
abbrev ProcessTable := Int → Option UInt64

structure World where
  program : MainLoop
  kernel : ProcessTable

inductive WorldLabel where
  | program (label : MainLabel)
  /-- A process is gone and its PID free. -/
  | exit (pid : Int)
  /-- A process starts under a free PID. -/
  | spawn (pid : Int) (started : UInt64)

def WorldLabel.program? : WorldLabel → Option MainLabel
  | .program label => some label
  | _ => none

/-- What the kernel answers is true: the `stat` a sweep reads tells the start of the
    process that holds the PID, and only a PID nobody holds is unknown to `kill()`. -/
def ProcessTable.Answers (kernel : ProcessTable) (s : MainLoop) : MainLabel → Prop
  | .background .sweep => ∀ w seconds pid rest,
      s.col.thread = .sweeping w (.loop seconds (pid :: rest)) →
        ∀ started, w.startOf pid = some started → kernel pid = some started
  | .kill call answer => answer = .error .esrch ↔ kernel call.pid = none
  | _ => True

inductive WorldStep : World → WorldLabel → World → Prop where
  | program {s : World} {label : MainLabel} {next : MainLoop}
      (step : MainStep s.program label next) (answers : s.kernel.Answers s.program label) :
      WorldStep s (.program label) { s with program := next }
  | exit {s : World} {pid : Int} {started : UInt64} (there : s.kernel pid = some started) :
      WorldStep s (.exit pid) { s with kernel := Function.update s.kernel pid none }
  | spawn {s : World} {pid : Int} {started : UInt64} (free : s.kernel pid = none) :
      WorldStep s (.spawn pid started)
        { s with kernel := Function.update s.kernel pid (some started) }

/-- The program with its first sample published, and the processes it shows alive. -/
def worldSystem : LabelledSystem World WorldLabel where
  Init s := ∃ host cpuCount seed reads w time width height clock,
    s.program = .start ((SystemMonitor.init cpuCount seed).update reads).2
        (update w time (.init host)) width height clock ∧
      ∀ info ∈ (update w time (.init host)).sample, ∀ started,
        w.startOf info.pid = some started → s.kernel info.pid = some started
  Step := WorldStep

theorem world_main_run {s later : World} {labels : List WorldLabel}
    (run : worldSystem.Run s labels later) :
    mainSystem.Run s.program (labels.filterMap WorldLabel.program?) later.program := by
  refine run.project World.program WorldLabel.program? fun s label next step => ?_
  cases step with
  | program step answers => exact step
  | exit there => rfl
  | spawn free => rfl

theorem world_main_trace {labels : List WorldLabel} {s : World}
    (history : worldSystem.Trace labels s) :
    mainSystem.Trace (labels.filterMap WorldLabel.program?) s.program := by
  obtain ⟨start, ⟨host, cpuCount, seed, reads, w, time, width, height, clock, same, _⟩, run⟩ :=
    history
  exact ⟨start.program, ⟨host, cpuCount, seed, reads, w, time, width, height, clock, same⟩,
    world_main_run run⟩

/-- A process stays who it is for as long as it does not exit. -/
theorem holder_kept {s later : World} {labels : List WorldLabel} {pid : Int} {started : UInt64}
    (run : worldSystem.Run s labels later) (stays : .exit pid ∉ labels)
    (holds : s.kernel pid = some started) : later.kernel pid = some started := by
  have others : ∀ label ∈ labels, label ≠ .exit pid := fun _ member same => stays (same ▸ member)
  refine run.keeps_along (P := fun t => t.kernel pid = some started) ?_ others holds
  intro t label next step other held
  cases step with
  | program step answers => exact held
  | exit there =>
      rename_i gone _
      have apart : pid ≠ gone := fun same => other (same ▸ rfl)
      exact (Function.update_of_ne apart _ _).trans held
  | spawn free =>
      rename_i taken _
      have apart : pid ≠ taken := fun same => by simp [← same, held] at free
      exact (Function.update_of_ne apart _ _).trans held

/-- A confirmed K, X or S calls `kill()` on the PID that was highlighted and that the
    prompt named, so it reaches whoever holds that PID then: the process that held it at
    any earlier moment since which it has not exited. Where nobody holds it nothing is
    signalled. -/
theorem kill_reaches_holder {trace : List WorldLabel} {s next : World} {call : KillCall}
    {answer : Except Errno Unit} (history : worldSystem.Trace trace s)
    (step : worldSystem.Step s (.program (.kill call answer)) next)
    (confirmed : call.signal ≠ .sigCont) :
    (∃ earlier since action name, trace.filterMap WorldLabel.program? = earlier ++ since ∧
      NoKey since ∧ Selected earlier (.signal action) call.pid ∧ call.signal = action.signal ∧
      Looked earlier since call.pid name ∧ Confirmed since (confirmMsg action call.pid name)) ∧
      (s.kernel call.pid = none → answer = .error .esrch) ∧
      ∀ before since then_ started, trace = before ++ since → worldSystem.Trace before then_ →
        worldSystem.Run then_ since s → then_.kernel call.pid = some started →
        .exit call.pid ∉ since → s.kernel call.pid = some started := by
  have justified := main_justified (world_main_trace history)
  cases step with
  | program step answers =>
      cases step with
      | kill there made =>
          rw [there] at justified
          obtain ⟨_, rfl⟩ := killCall_pos made
          obtain ⟨earlier, since, split, noKey, way⟩ := justified
          refine ⟨?_, answers.mpr, ?_⟩
          · rcases way with ⟨_, resumed⟩ | ⟨action, name, selected, same, looked, asked⟩
            · exact absurd resumed confirmed
            · exact ⟨earlier, since, action, name, split, noKey, selected, same, looked, asked⟩
          · intro _ _ _ _ _ _ run holds stays
            exact holder_kept run stays holds

/-! ## Reuse while the prompt waits -/

/-- Steps about which the kernel is not asked anything. -/
theorem world_run_of_main {s next : MainLoop} {labels : List MainLabel} {kernel : ProcessTable}
    (run : mainSystem.Run s labels next)
    (unasked : ∀ label ∈ labels, ∀ t, kernel.Answers t label) :
    worldSystem.Run ⟨s, kernel⟩ (labels.map .program) ⟨next, kernel⟩ := by
  refine run.induct (P := fun labels next => (∀ label ∈ labels, ∀ t, kernel.Answers t label) →
    worldSystem.Run ⟨s, kernel⟩ (labels.map .program) ⟨next, kernel⟩) (fun _ => .refl _) ?_ unasked
  intro labels t label next _ ih step unasked
  rw [List.map_append]
  refine .snoc (ih fun label member => unasked label (List.mem_append_left _ member)) ?_
  exact .program step (unasked label (by simp) t)

/-- The two processes of the first sample, both started at tick 5. -/
def exampleKernel : ProcessTable := fun pid => if pid = 3 ∨ pid = 12 then some 5 else none

def exampleAsking : MainLoop :=
  exampleInput.prompting .free (.asking .terminate 3 (text "sh"))

theorem example_kernel :
    ∀ info ∈ exampleSample.sample, ∀ started, exampleSweep.startOf info.pid = some started →
      exampleKernel info.pid = some started := by
  intro info member started read
  have shown : info.pid ∈ exampleSample.sample.map ProcessInfo.pid := List.mem_map_of_mem member
  have pids : exampleSample.sample.map ProcessInfo.pid = [3, 12] := by decide +kernel
  have starts : exampleSweep.startOf 3 = some 5 ∧ exampleSweep.startOf 12 = some 5 := by
    decide +kernel
  rw [pids, List.mem_cons, List.mem_singleton] at shown
  rcases shown with three | twelve
  · rw [three] at read ⊢
    exact starts.1.symm.trans read
  · rw [twelve] at read ⊢
    exact starts.2.symm.trans read

/-- K was pressed over PID 3, and the prompt waits. -/
theorem example_asking :
    ∃ trace, worldSystem.Trace trace ⟨exampleAsking, exampleKernel⟩ := by
  have selected : exampleInput.ui.selectedPid = 3 := by decide +kernel
  obtain ⟨info, found, name⟩ := Option.map_eq_some_iff.mp
    (by decide +kernel : (exampleInput.col.proc.find 3).map
      (fun info => snprintf commMax info.name) = some (text "sh"))
  have asked := asking_run (s := exampleInput) rfl rfl (by decide +kernel) selected (by decide)
    found
  rw [name] at asked
  have frame : mainSystem.Run exampleMain [.test, .key (-1), .lock, .compare, .frame exampleDraw.2]
      examplePainted := first_frame _ _ _ _ _ _
  refine ⟨_, ⟨exampleMain, exampleKernel⟩, ⟨_, _, _, _, _, _, _, _, _, rfl, example_kernel⟩,
    world_run_of_main ((frame.append example_input).append asked) ?_⟩
  simp [ProcessTable.Answers]

/-- PID 3 passes to a process started at tick 900 before the answer, and that process
    gets the signal. -/
theorem reused_pid_signalled :
    ∃ trace killing next, worldSystem.Trace trace ⟨exampleAsking, exampleKernel⟩ ∧
      exampleAsking.main = .asking .terminate 3 (text "sh") ∧ exampleKernel 3 = some 5 ∧
      worldSystem.Run ⟨exampleAsking, exampleKernel⟩
        [.exit 3, .spawn 3 900,
          .program (.confirm (confirmMsg .terminate 3 (text "sh")) true 121)] killing ∧
      killing.kernel 3 = some 900 ∧
      worldSystem.Step killing (.program (.kill ⟨3, .sigTerm⟩ (.ok ()))) next := by
  obtain ⟨trace, history⟩ := example_asking
  obtain ⟨confirm, next, kill⟩ := confirmed_run exampleInput (text "sh") (by decide : 0 < (3 : Int))
    (by decide +kernel)
  have there : exampleKernel 3 = some 5 := rfl
  have freed : Function.update exampleKernel 3 none 3 = none := by simp
  let kernel := Function.update (Function.update exampleKernel 3 none) 3 (some 900)
  have held : kernel 3 = some 900 := by simp [kernel]
  refine ⟨trace, ⟨exampleInput.prompting .free (.signalling .sigTerm 3), kernel⟩,
    ⟨next, kernel⟩, history, rfl, there, ?_, held, .program kill ?_⟩
  · exact .cons (.exit there) (.cons (.spawn freed) (.single (.program confirm trivial)))
  · simp [ProcessTable.Answers, held]

/-- Without an exit the process asked about is the one signalled. -/
theorem kill_reaches_holder_example :
    ∃ killing next, worldSystem.Step killing (.program (.kill ⟨3, .sigTerm⟩ (.ok ()))) next ∧
      killing.kernel 3 = some 5 ∧ ∃ earlier, Selected earlier (.signal .terminate) 3 := by
  obtain ⟨trace, history⟩ := example_asking
  obtain ⟨confirm, next, kill⟩ := confirmed_run exampleInput (text "sh") (by decide : 0 < (3 : Int))
    (by decide +kernel)
  let killing : World := ⟨exampleInput.prompting .free (.signalling .sigTerm 3), exampleKernel⟩
  have answered : worldSystem.Run ⟨exampleAsking, exampleKernel⟩
      [.program (.confirm (confirmMsg .terminate 3 (text "sh")) true 121)] killing :=
    .single (.program confirm trivial)
  have held : exampleKernel 3 = some 5 := rfl
  have step : worldSystem.Step killing (.program (.kill ⟨3, .sigTerm⟩ (.ok ())))
      ⟨next, exampleKernel⟩ := .program kill (by simp [ProcessTable.Answers, killing, held])
  obtain ⟨⟨earlier, _, action, _, _, _, selected, same, _⟩, _, holder⟩ :=
    kill_reaches_holder (history.append answered) step (by decide)
  cases action with
  | terminate =>
      exact ⟨killing, _, step, holder _ _ _ 5 rfl history answered rfl (by simp), earlier, selected⟩
  | kill => cases same
  | stop => cases same

end KernelMonitor
