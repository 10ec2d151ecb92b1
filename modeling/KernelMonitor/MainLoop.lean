import KernelMonitor.Collector
import KernelMonitor.ProcessControl

/-! # The main loop

Model of `src/main.c` beside the collector thread. The main thread is a program
counter like the collector's; a step of either is a step of the program. What the
terminal, the kernel and the allocator answer is chosen by the step.
-/

namespace KernelMonitor

open Library

/-! ## Keys -/

/-- What a key asks for. -/
inductive Command where
  | quit
  | refresh
  | slower
  | faster
  | resize
  | up
  | down
  | pageUp
  | pageDown
  | enter
  | back
  | tree
  | events
  | signal (action : Action)
  | resume
  deriving DecidableEq, Repr

/-- The labels of the `switch` on `ch`; the codes past 255 are those of ncurses. -/
def commandOf (ch : Int) : Option Command :=
  match ch with
  | 113 | 81 => some .quit
  | 114 | 82 => some .refresh
  | 43 | 61 => some .slower
  | 45 | 95 => some .faster
  | 410 => some .resize
  | 259 => some .up
  | 258 => some .down
  | 339 => some .pageUp
  | 338 => some .pageDown
  | 10 | 343 => some .enter
  | 27 | 98 | 66 => some .back
  | 116 | 84 => some .tree
  | 101 | 69 => some .events
  | 107 | 75 => some (.signal .terminate)
  | 120 | 88 => some (.signal .kill)
  | 115 | 83 => some (.signal .stop)
  | 99 | 67 => some .resume
  | _ => none

def minInterval : Int := 500
def maxInterval : Int := 10000

/-- The `signal_name` each call of `signal_selected` passes. -/
def Action.signalName : Action → Bytes
  | .terminate => text "SIGTERM"
  | .kill => text "SIGKILL"
  | .stop => text "SIGSTOP"

/-- The `caveat` each call of `signal_selected` passes. -/
def Action.caveat : Action → Bytes
  | .terminate => []
  | .kill => text " Cannot be caught."
  | .stop => []

/-- `confirm_msg` -/
def confirmMsg (action : Action) (pid : Int) (name : Bytes) : Bytes :=
  snprintf 256 (text "Send " ++ action.signalName ++ text " to PID " ++ signedDecimal pid ++
    text " (" ++ name ++ text ")?" ++ action.caveat)

/-! ## States -/

/-- A call of the collector's interface that takes the lock itself. -/
inductive ApiCall where
  | requestRefresh
  | setInterval (ms : Int)
  | stop
  deriving DecidableEq, Repr

def ApiCall.label : ApiCall → CollectorLabel
  | .requestRefresh => .request
  | .setInterval ms => .setInterval ms
  | .stop => .stop

/-- Where the main thread is. -/
inductive MainPoint where
  /-- At the condition of the loop. -/
  | testing
  | input
  /-- Before the lock of a call, inside it, and before the unlock. -/
  | calling (call : ApiCall)
  | inside (call : ApiCall)
  | returning (call : ApiCall)
  /-- The three places of the lookup in `signal_selected`. -/
  | seeking (action : Action) (pid : Int)
  | finding (action : Action) (pid : Int)
  | found (action : Action) (pid : Int) (name : Option Bytes)
  | asking (action : Action) (pid : Int) (name : Bytes)
  | signalling (signal : Signal) (pid : Int)
  /-- The locked part at the end of an iteration. -/
  | redraw
  | comparing
  | painting
  | painted
  | joining
  | finished
  deriving DecidableEq, Repr

/-- Where a place that waits for the lock goes on. -/
def MainPoint.locked? : MainPoint → Option MainPoint
  | .calling call => some (.inside call)
  | .seeking action pid => some (.finding action pid)
  | .redraw => some .comparing
  | _ => none

/-- The places where the main thread holds the lock. -/
def MainPoint.holdsLock : MainPoint → Bool
  | .inside _ | .returning _ | .finding _ _ | .found _ _ _ | .comparing | .painting | .painted =>
      true
  | _ => false

/-- The locals of `main`, `g_running`, and the collector. -/
structure MainLoop where
  col : Collector
  ui : Ui
  refreshInterval : Int
  drawnGeneration : UInt64
  needsRedraw : Bool
  running : Bool
  main : MainPoint

/-- The state before the first iteration, with one sample already published. -/
def MainLoop.start (sys : SystemMonitor) (proc : ProcessMonitor) (width height : Int)
    (clock : Timespec) : MainLoop where
  col := .start sys proc 2000 clock
  ui := (Ui.init width height).setStatus (text "Kernel Monitor started. Press Q to quit.") false
  refreshInterval := 2000
  drawnGeneration := 0
  needsRedraw := true
  running := true
  main := .testing

namespace MainLoop

/-- The branch of the `switch` a command takes, up to the first lock or wait. -/
def runCommand (s : MainLoop) : Command → MainLoop
  | .quit => { s with running := false, main := .redraw }
  | .refresh => { s with main := .calling .requestRefresh }
  | .slower =>
      let interval := min (s.refreshInterval + 500) maxInterval
      { s with refreshInterval := interval, main := .calling (.setInterval interval) }
  | .faster =>
      let interval := max (s.refreshInterval - 500) minInterval
      { s with refreshInterval := interval, main := .calling (.setInterval interval) }
  | .resize => { s with main := .redraw }
  | .up => { s with ui := s.ui.selectPrevious, main := .redraw }
  | .down => { s with ui := s.ui.selectNext, main := .redraw }
  | .pageUp => { s with ui := s.ui.pageUp, main := .redraw }
  | .pageDown => { s with ui := s.ui.pageDown, main := .redraw }
  | .enter =>
      if s.ui.viewMode = .processList then
        { s with ui := s.ui.setViewMode .processDetail, main := .redraw }
      else { s with main := .redraw }
  | .back =>
      { s with ui := (s.ui.setViewMode .processList).setStatus [] false, main := .redraw }
  | .tree => { s with ui := s.ui.setViewMode .processTree, main := .redraw }
  | .events => { s with ui := s.ui.setViewMode .events, main := .redraw }
  | .signal action =>
      if s.ui.viewMode ≠ .processList then { s with main := .redraw }
      else if s.ui.selectedPid ≤ 0 then { s with main := .redraw }
      else { s with main := .seeking action s.ui.selectedPid }
  | .resume =>
      if s.ui.viewMode = .processList ∧ 0 < s.ui.selectedPid then
        { s with main := .signalling .sigCont s.ui.selectedPid }
      else { s with main := .redraw }

/-- What a key read by `getch` leads to. `needs_redraw` is local to the loop, so it is
    set here already and not after the `switch`. -/
def handleKey (s : MainLoop) (ch : Int) : MainLoop :=
  match commandOf ch with
  | none => { s with main := .redraw }
  | some command => { s with needsRedraw := true }.runCommand command

/-- What follows a call that has let go of the lock. -/
def afterCall (s : MainLoop) : ApiCall → MainLoop
  | .requestRefresh => { s with ui := s.ui.setStatus (text "Refreshed") false, main := .redraw }
  | .setInterval ms =>
      let status := snprintf 64 (text "Update interval: " ++ signedDecimal ms ++ text " ms")
      { s with ui := s.ui.setStatus status false, main := .redraw }
  | .stop => { s with main := .joining }

/-- The status line after an attempt to signal. -/
def report (s : MainLoop) (result : SignalResult) : MainLoop :=
  let status := snprintf 320
    (text "PID " ++ signedDecimal result.pid ++ text ": " ++ result.errorMessage)
  { s with ui := s.ui.setStatus status (!result.success), main := .redraw }

/-- The locked part of `signal_selected`: the lookup and the copy of the name. -/
def afterFind (s : MainLoop) (action : Action) (pid : Int) : MainLoop :=
  let name := (s.col.proc.find pid).map fun info => snprintf commMax info.name
  { s with main := .found action pid name }

/-- After the lookup: ask about a process that is still there. -/
def afterLookup (s : MainLoop) (action : Action) (pid : Int) : Option Bytes → MainLoop
  | some name => { s with main := .asking action pid name }
  | none => { s with main := .redraw }

/-- After the answer. -/
def afterConfirm (s : MainLoop) (action : Action) (pid : Int) (confirmed : Bool) : MainLoop :=
  if confirmed then { s with main := .signalling action.signal pid }
  else { s with ui := s.ui.setStatus (text "Cancelled") false, main := .redraw }

/-- The comparison of generations, under the lock. -/
def compareGenerations (s : MainLoop) : MainLoop :=
  if s.col.generation ≠ s.drawnGeneration then
    { s with drawnGeneration := s.col.generation, needsRedraw := true, main := .painting }
  else { s with main := .painting }

end MainLoop

/-! ## Steps -/

inductive MainLabel where
  /-- A step of the collector thread, or of the clock. -/
  | background (label : CollectorLabel)
  /-- `signal_handler` for SIGINT or SIGTERM. -/
  | interrupt
  | test
  | key (ch : Int)
  | lock
  | call (call : ApiCall)
  | unlock
  | find (info : Option ProcessInfo)
  | confirm (message : Bytes) (opened : Bool) (ch : Int)
  | kill (call : KillCall) (answer : Except Errno Unit)
  /-- `km_send_signal` without a call of `kill()`. -/
  | refused
  | compare
  | frame (frame : Frame)
  | skip
  | join

inductive MainStep : MainLoop → MainLabel → MainLoop → Prop where
  | background {s : MainLoop} {label : CollectorLabel} {col : Collector}
      (own : label.byMain = false) (step : CollectorStep s.col label col) :
      MainStep s (.background label) { s with col := col }
  | interrupt {s : MainLoop} : MainStep s .interrupt { s with running := false }
  | test {s : MainLoop} (there : s.main = .testing) :
      MainStep s .test { s with main :=
        if s.running then .input else if s.col.running then .calling .stop else .finished }
  | key {s : MainLoop} {ch : Int} (there : s.main = .input) : MainStep s (.key ch) (s.handleKey ch)
  | lock {s : MainLoop} {next : MainPoint} {col : Collector} (waiting : s.main.locked? = some next)
      (step : CollectorStep s.col .acquire col) :
      MainStep s .lock { s with col := col, main := next }
  | call {s : MainLoop} {call : ApiCall} {col : Collector} (there : s.main = .inside call)
      (step : CollectorStep s.col call.label col) :
      MainStep s (.call call) { s with col := col, main := .returning call }
  | returned {s : MainLoop} {call : ApiCall} {col : Collector} (there : s.main = .returning call)
      (step : CollectorStep s.col .release col) :
      MainStep s .unlock ({ s with col := col }.afterCall call)
  /-- `km_process_monitor_find`, and the copy of the name. -/
  | find {s : MainLoop} {action : Action} {pid : Int} (there : s.main = .finding action pid) :
      MainStep s (.find (s.col.proc.find pid)) (s.afterFind action pid)
  | looked {s : MainLoop} {action : Action} {pid : Int} {name : Option Bytes} {col : Collector}
      (there : s.main = .found action pid name) (step : CollectorStep s.col .release col) :
      MainStep s .unlock ({ s with col := col }.afterLookup action pid name)
  /-- `km_ui_confirm` waits on the user with the lock released. -/
  | confirm {s : MainLoop} {action : Action} {pid : Int} {name : Bytes} {opened : Bool} {ch : Int}
      (there : s.main = .asking action pid name) :
      MainStep s (.confirm (confirmMsg action pid name) opened ch)
        (s.afterConfirm action pid (s.ui.confirm opened ch))
  | kill {s : MainLoop} {signal : Signal} {pid : Int} {call : KillCall}
      {answer : Except Errno Unit} (there : s.main = .signalling signal pid)
      (made : killCall pid signal = some call) :
      MainStep s (.kill call answer) (s.report (sendSignal pid signal answer))
  | refused {s : MainLoop} {signal : Signal} {pid : Int} (there : s.main = .signalling signal pid)
      (none : killCall pid signal = none) :
      MainStep s .refused (s.report (sendSignal pid signal (.ok ())))
  | compare {s : MainLoop} (there : s.main = .comparing) :
      MainStep s .compare s.compareGenerations
  /-- `km_ui_draw`, on a terminal that may have been resized. -/
  | frame {s : MainLoop} {mem : DrawMemory} {width height : Int} (there : s.main = .painting)
      (due : s.needsRedraw = true) :
      MainStep s (.frame (s.ui.draw mem width height s.col.sys s.col.proc).2)
        { s with
          ui := (s.ui.draw mem width height s.col.sys s.col.proc).1
          needsRedraw := false
          main := .painted }
  | skip {s : MainLoop} (there : s.main = .painting) (clean : s.needsRedraw = false) :
      MainStep s .skip { s with main := .painted }
  | release {s : MainLoop} {col : Collector} (there : s.main = .painted)
      (step : CollectorStep s.col .release col) :
      MainStep s .unlock { s with col := col, main := .testing }
  | join {s : MainLoop} {col : Collector} (there : s.main = .joining)
      (step : CollectorStep s.col .join col) :
      MainStep s .join { s with col := col, main := .finished }

/-- The program from the start of its second thread on. -/
def mainSystem : LabelledSystem MainLoop MainLabel where
  Init s := ∃ host cpuCount seed reads w time width height clock,
    s = .start ((SystemMonitor.init cpuCount seed).update reads).2 (update w time (.init host))
      width height clock
  Step := MainStep

/-! ## The collector within the program -/

/-- What a step of the program is to the collector. -/
def MainLabel.collector? : MainLabel → Option CollectorLabel
  | .background label => some label
  | .lock => some .acquire
  | .call api => some api.label
  | .unlock => some .release
  | .join => some .join
  | _ => none

/-- What handling a key leaves alone; it ends outside the lock. -/
structure MainLoop.KeyKept (s next : MainLoop) : Prop where
  col : next.col = s.col
  displayedPids : next.ui.displayedPids = s.ui.displayedPids
  drawnGeneration : next.drawnGeneration = s.drawnGeneration
  needsRedraw : next.needsRedraw = true ∨ next.needsRedraw = s.needsRedraw
  outside : next.main.holdsLock = false

theorem MainLoop.runCommand_kept (s : MainLoop) (command : Command) :
    s.KeyKept (s.runCommand command) := by
  cases command <;>
    simp only [runCommand, Ui.selectPrevious, Ui.selectNext, Ui.pageUp, Ui.pageDown,
      Ui.setViewMode, Ui.setStatus] <;>
    repeat' split
  all_goals exact ⟨rfl, rfl, rfl, .inr rfl, rfl⟩

theorem MainLoop.handleKey_kept (s : MainLoop) (ch : Int) :
    s.KeyKept (s.handleKey ch) := by
  unfold handleKey
  cases commandOf ch with
  | none => exact ⟨rfl, rfl, rfl, .inr rfl, rfl⟩
  | some command =>
      have kept := runCommand_kept { s with needsRedraw := true } command
      refine ⟨kept.col, kept.displayedPids, kept.drawnGeneration, .inl ?_, kept.outside⟩
      rcases kept.needsRedraw with due | same
      · exact due
      · exact same

/-- The main loop keeps to the collector's interface. -/
theorem MainStep.collector {s next : MainLoop} {label : MainLabel} (step : MainStep s label next) :
    match label.collector? with
    | some seen => collectorSystem.Step s.col seen next.col
    | none => next.col = s.col := by
  cases step with
  | background own step => exact step
  | key there => exact (s.handleKey_kept _).col
  | lock waiting step => exact step
  | call there step => exact step
  | returned there step => cases ‹ApiCall› <;> exact step
  | looked there step => cases ‹Option Bytes› <;> exact step
  | confirm there =>
      simp only [MainLabel.collector?, MainLoop.afterConfirm]
      split <;> rfl
  | compare there =>
      simp only [MainLabel.collector?, MainLoop.compareGenerations]
      split <;> rfl
  | release there step => exact step
  | join there step => exact step
  | _ => rfl

theorem main_collector_run {s later : MainLoop} {after : List MainLabel}
    (run : mainSystem.Run s after later) :
    collectorSystem.Run s.col (after.filterMap MainLabel.collector?) later.col := by
  refine run.project MainLoop.col MainLabel.collector? fun s label next step => ?_
  have kept := MainStep.collector step
  cases seen : label.collector? <;> simpa only [seen] using kept

theorem main_collector_trace {trace : List MainLabel} {s : MainLoop}
    (history : mainSystem.Trace trace s) :
    collectorSystem.Trace (trace.filterMap MainLabel.collector?) s.col := by
  obtain ⟨_, ⟨_, _, _, _, _, _, _, _, _, rfl⟩, run⟩ := history
  exact ⟨_, ⟨_, _, _, _, rfl⟩, main_collector_run run⟩

/-- While the main thread does nothing the collector runs on its own. -/
theorem background_run {s : MainLoop} {labels : List CollectorLabel} {col : Collector}
    (run : collectorSystem.Run s.col labels col) (own : ∀ label ∈ labels, label.byMain = false) :
    mainSystem.Run s (labels.map .background) { s with col := col } := by
  refine run.induct (P := fun labels col => (∀ label ∈ labels, label.byMain = false) →
    mainSystem.Run s (labels.map .background) { s with col := col }) (fun _ => .refl s) ?_ own
  intro labels col label next _ ih step own
  rw [List.map_append]
  refine .snoc (ih fun label member => own label (List.mem_append_left _ member)) ?_
  exact .background (own label (by simp)) step

/-! ## The first iteration -/

/-- Up to its frame, where nobody presses a key and the collector does nothing. -/
theorem first_frame (sys : SystemMonitor) (proc : ProcessMonitor) (width height : Int)
    (clock : Timespec) (mem : DrawMemory) :
    let s := MainLoop.start sys proc width height clock
    let drawn := s.ui.draw mem width height sys proc
    mainSystem.Run s [.test, .key (-1), .lock, .compare, .frame drawn.2]
      { s with
        col := { s.col with lock := .main }, ui := drawn.1, needsRedraw := false,
        main := .painted } :=
  .cons (.test rfl) <| .cons (.key rfl) <| .cons (.lock rfl (.acquire rfl)) <|
    .cons (.compare rfl) <| .single (.frame rfl rfl)

/-- From the end of an iteration to the next wait for a key. -/
theorem next_input {s : MainLoop} (there : s.main = .painted) (held : s.col.lock = .main)
    (running : s.running = true) :
    mainSystem.Run s [.unlock, .test]
      { s with col := { s.col with lock := .free }, main := .input } := by
  let released : MainLoop := { s with col := { s.col with lock := .free }, main := .testing }
  have test : MainStep released .test _ := .test rfl
  rw [if_pos running] at test
  exact .cons (.release there (.release held)) (.single test)

/-! PIDs 3 and 12 in a first frame of 100 columns. -/

def exampleSystem : SystemMonitor := ((SystemMonitor.init 1 exampleReads).update exampleReads).2

def exampleSample : ProcessMonitor := update exampleSweep exampleStamps (.init exampleHost)

def exampleMain : MainLoop := .start exampleSystem exampleSample 100 40 ⟨10, 0⟩

def exampleDraw : Ui × Frame :=
  exampleMain.ui.draw ⟨true, true, ⟨true, none⟩⟩ 100 40 exampleSystem exampleSample

def examplePainted : MainLoop :=
  { exampleMain with
    col := { exampleMain.col with lock := .main }, ui := exampleDraw.1, needsRedraw := false,
    main := .painted }

def exampleInput : MainLoop :=
  { examplePainted with col := { examplePainted.col with lock := .free }, main := .input }

theorem example_painted :
    mainSystem.Trace [.test, .key (-1), .lock, .compare, .frame exampleDraw.2] examplePainted :=
  ⟨exampleMain, ⟨_, _, _, _, _, _, _, _, _, rfl⟩, first_frame _ _ _ _ _ _⟩

theorem example_input : mainSystem.Run examplePainted [.unlock, .test] exampleInput :=
  next_input rfl rfl rfl

end KernelMonitor
