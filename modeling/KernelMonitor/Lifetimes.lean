import KernelMonitor.Library.Typestate

/-! # What the program takes and gives back

Every `malloc`, window, file, directory, mutex and condition variable of `src/`, in the
order in which the functions take them and give them back, on all paths. What a function
decides by the contents of its data is left to the outside, and so is which calls fail.
The collector thread is the second thread. In every run nothing is given back twice, used
afterwards or lost, and at its end the program has given back everything.
-/

namespace KernelMonitor

open Library Script

/-- The variables that name something to be given back. A `km_process_tree` and its
    `fill`, a file and a directory are local to the thread that uses them. -/
inductive Slot where
  | processes
  | incoming
  | pids
  | perCoreCpuUsage
  | displayedPids
  | sorted
  | childStart
  | childCount
  | childPids
  | roots
  | fill
  | systemWin
  | contentWin
  | statusWin
  | helpWin
  | confirmWin
  /-- `initscr` and `endwin` -/
  | mainWin
  | lock
  | wake
  | fd (side : Side)
  | dir (side : Side)
  deriving DecidableEq, Repr

abbrev Code := Script Slot

/-! ## proc/proc_reader.c -/

/-- `km_proc_read_file` once the file is open. A read fails, finds the end, or is
    interrupted or has read something. -/
def readRest (side : Side) : ℕ → Code Bool
  | 0 => do
      close (.fd side)
      pure true
  | n + 1 => do
      use (.fd side)
      match ← choice with
      | 0 =>
          close (.fd side)
          pure false
      | 1 =>
          close (.fd side)
          pure true
      | _ => readRest side n

/-- `km_proc_read_file` -/
def readFile (side : Side) : Code Bool := do
  if ← acquire (.fd side) then
    readRest side (← choice)
  else
    pure false

/-- `km_proc_count_fds` -/
def countFdsOf (side : Side) : Code Unit := do
  if ← acquire (.dir side) then
    loop do
      use (.dir side)
      pure true
    close (.dir side)

/-- `km_proc_cpu_count`, which reads `/proc/cpuinfo` if `sysconf` does not help. -/
def cpuCount (side : Side) : Code Unit := do
  if (← choice) = 0 then
    let _ ← readFile side

/-- An array that is doubled when it is full. -/
def reserve (s : Slot) : Code Bool := do
  if (← choice) = 0 then
    regrow s
  else
    pure true

/-- A push onto such an array; without room the value is dropped. -/
def push (s : Slot) : Code Unit := do
  if ← reserve s then
    touch s

/-- `pid_list_push` -/
def pushPid : Code Unit := push .pids

/-- `km_pid_list_init` -/
def pidListInit : Code Unit := clear .pids

/-- `km_pid_list_free` -/
def pidListFree : Code Unit := do
  release .pids
  pidListInit

/-- `km_proc_list_pids` -/
def listPidsOf (side : Side) : Code Bool := do
  if ← acquire (.dir side) then
    loop do
      use (.dir side)
      if (← choice) = 0 then
        pushPid
      pure true
    close (.dir side)
    touch .pids
    pure true
  else
    pure false

/-! ## system/system_monitor.c -/

def perCorePush : Code Unit := push .perCoreCpuUsage

def systemUpdateInfo (side : Side) : Code Unit := do
  if ← readFile side then
    let _ ← readFile side

def systemUpdateCpuStats (side : Side) : Code Unit := do
  if ← readFile side then
    loop do
      if (← choice) = 0 then
        perCorePush
      pure true

/-- `km_system_monitor_update`; the last two read one file each. -/
def systemUpdate (side : Side) : Code Unit := do
  systemUpdateInfo side
  systemUpdateCpuStats side
  let _ ← readFile side
  let _ ← readFile side

/-- `km_system_monitor_init` -/
def systemInit (side : Side) : Code Unit := do
  clear .perCoreCpuUsage
  cpuCount side
  systemUpdateCpuStats side

/-- `km_system_monitor_destroy` -/
def systemDestroy : Code Unit := do
  release .perCoreCpuUsage
  clear .perCoreCpuUsage

/-! ## process/process_monitor.c -/

/-- `km_process_monitor_init` -/
def processInit (side : Side) : Code Unit := do
  clear .processes
  clear .incoming
  clear .pids
  pidListInit
  cpuCount side

/-- `km_process_monitor_destroy` -/
def processDestroy : Code Unit := do
  release .processes
  release .incoming
  pidListFree
  clear .processes
  clear .incoming

def incomingReserveOf : Code Bool := reserve .incoming

/-- `read_process_info` into a slot of `incoming` -/
def readProcessInfoOf (side : Side) : Code Bool := do
  touch .incoming
  if ← readFile side then
    if (← choice) = 0 then
      pure false
    else
      let _ ← readFile side
      let _ ← readFile side
      let _ ← readFile side
      countFdsOf side
      touch .incoming
      pure true
  else
    pure false

/-- `km_process_monitor_collect` -/
def collectOf (side : Side) : Code Unit := do
  let _ ← listPidsOf side
  loop do
    touch .pids
    if ← incomingReserveOf then
      if ← readProcessInfoOf side then
        touch .processes
        touch .incoming
      pure true
    else
      pure false

/-- `km_process_monitor_publish` -/
def publishOf : Code Unit := do
  touch .processes
  touch .incoming
  swap .processes .incoming

/-- `km_process_monitor_update` -/
def updateOf (side : Side) : Code Unit := do
  collectOf side
  publishOf

/-- `km_process_tree_destroy` -/
def treeDestroy : Code Unit := do
  release .childStart
  release .childCount
  release .childPids
  release .roots
  clear .childStart
  clear .childCount
  clear .childPids
  clear .roots

/-- Where `km_process_tree_build` fails. -/
def treeFailed : Code Bool := do
  release .fill
  treeDestroy
  pure false

/-- Its second pass -/
def treeFill : Code Bool := do
  touch .processes
  touch .childPids
  touch .childStart
  touch .roots
  touch .fill
  release .fill
  pure true

/-- Its first pass, and the room for the children, if there are any -/
def treeCount : Code Bool := do
  touch .processes
  touch .childCount
  touch .roots
  touch .childStart
  if (← choice) = 0 then
    treeFill
  else
    if ← acquire .childPids then
      treeFill
    else
      treeFailed

/-- `km_process_tree_build` -/
def treeBuild : Code Bool := do
  clear .childStart
  clear .childCount
  clear .childPids
  clear .roots
  clear .fill
  if (← choice) = 0 then
    pure true
  else
    let _ ← acquire .childStart
    let _ ← acquire .childCount
    let _ ← acquire .roots
    let _ ← acquire .fill
    if (← test .childStart) && (← test .childCount) && (← test .roots) && (← test .fill) then
      treeCount
    else
      treeFailed

/-! ## ui/ui.c -/

/-- `km_ui_init_state` -/
def uiInitState : Code Unit := do
  clear .mainWin
  clear .systemWin
  clear .contentWin
  clear .statusWin
  clear .helpWin
  clear .displayedPids
  clear .sorted

/-- `create_windows`, which does not look whether it got them -/
def createWindows : Code Unit := do
  let _ ← acquire .systemWin
  let _ ← acquire .contentWin
  let _ ← acquire .statusWin
  let _ ← acquire .helpWin

/-- `if (win) delwin(win)` -/
def deleteWindow (win : Slot) : Code Unit := do
  if ← test win then
    close win

def destroyWindows : Code Unit := do
  deleteWindow .systemWin
  deleteWindow .contentWin
  deleteWindow .statusWin
  deleteWindow .helpWin
  clear .systemWin
  clear .contentWin
  clear .statusWin
  clear .helpWin

/-- `km_ui_initialize` -/
def uiInitialize : Code Bool := do
  if ← acquire .mainWin then
    createWindows
    pure true
  else
    pure false

/-- `km_ui_cleanup` -/
def uiCleanup : Code Unit := do
  destroyWindows
  release .displayedPids
  clear .displayedPids
  release .sorted
  clear .sorted
  close .mainWin

def reserveDisplayed : Code Bool := reserve .displayedPids

def reserveSorted : Code Bool := reserve .sorted

/-- `draw_process_list` -/
def drawListOf : Code Unit := do
  touch .contentWin
  if ← reserveSorted then
    if ← reserveDisplayed then
      touch .displayedPids
      touch .processes
      touch .sorted
      touch .contentWin
    else
      touch .contentWin
  else
    touch .contentWin

/-- `draw_process_detail` -/
def drawDetailOf : Code Unit := do
  touch .contentWin
  touch .displayedPids
  touch .processes
  touch .contentWin

/-- `draw_process_tree` -/
def drawTreeOf : Code Unit := do
  touch .contentWin
  if ← treeBuild then
    loop do
      touch .roots
      touch .processes
      touch .childCount
      touch .childPids
      touch .childStart
      touch .contentWin
      pure true
    treeDestroy
  else
    touch .contentWin

/-- `draw_events` -/
def drawEventsOf : Code Unit := touch .contentWin

/-- The switch over `view_mode` in `km_ui_draw` -/
def drawViewOf : Code Unit := do
  match ← choice with
  | 0 => drawListOf
  | 1 => drawDetailOf
  | 2 => drawTreeOf
  | _ => drawEventsOf

/-- The check for another size of the terminal in `km_ui_draw` -/
def resizeWindows : Code Unit := do
  if (← choice) = 0 then
    destroyWindows
    createWindows

/-- `km_ui_draw` -/
def drawAll : Code Unit := do
  use .mainWin
  resizeWindows
  touch .systemWin
  drawViewOf
  touch .statusWin
  touch .helpWin
  touch .systemWin
  touch .contentWin
  touch .statusWin
  touch .helpWin

/-- `km_ui_get_input` -/
def getInput : Code ℕ := do
  use .mainWin
  choice

/-- `km_ui_confirm` -/
def confirmOf : Code Bool := do
  if (← choice) = 0 then
    pure false
  else
    if ← acquire .confirmWin then
      use .confirmWin
      use .mainWin
      close .confirmWin
      touch .systemWin
      touch .contentWin
      touch .statusWin
      touch .helpWin
      pure (decide ((← choice) = 0))
    else
      pure false

/-! ## collector/collector.c -/

/-- `pthread_cond_timedwait` -/
def timedWait : Code Unit := do
  use .wake
  unlocking
  locking

/-- `collector_main`; a round of the outer loop ends it where it finds `stopping`. -/
def collectorMain : Code Unit := do
  locking
  loop do
    loop do
      timedWait
      pure true
    if (← choice) = 0 then
      pure false
    else
      unlocking
      collectOf .helper
      locking
      systemUpdate .helper
      publishOf
      pure true
  unlocking

/-- `km_collector_start` -/
def collectorStart : Code Bool := do
  clear .lock
  clear .wake
  if ← acquire .lock then
    if ← acquire .wake then
      if ← spawning then
        pure true
      else
        close .wake
        close .lock
        pure false
    else
      close .lock
      pure false
  else
    pure false

/-- `pthread_cond_signal` under the lock, as `km_collector_set_interval`,
    `km_collector_request_refresh` and `km_collector_stop` do it -/
def signalWake : Code Unit := do
  locking
  use .wake
  unlocking

/-- `km_collector_stop` of a collector that runs -/
def collectorStop : Code Unit := do
  signalWake
  joining
  close .wake
  close .lock

/-! ## main.c -/

/-- `signal_selected` -/
def signalSelected : Code Unit := do
  touch .displayedPids
  if (← choice) = 0 then
    locking
    touch .processes
    unlocking
    if (← choice) = 0 then
      let _ ← confirmOf

/-- The keys that take or look at anything: R, + and -, those that ask first, and C -/
def runKey (key : ℕ) : Code Unit :=
  match key with
  | 0 => signalWake
  | 1 => signalSelected
  | 2 => touch .displayedPids
  | _ => pure ()

/-- If `needs_redraw` -/
def redraw : Code Unit := do
  if (← choice) = 0 then
    drawAll

/-- A round of the main loop; the outside tells whether it is the last. -/
def mainRound : Code Bool := do
  runKey (← getInput)
  locking
  redraw
  unlocking
  pure (decide ((← choice) = 0))

/-- `main`, with what it returns -/
def program : Code ℕ := do
  if (← choice) = 0 then
    pure 1
  else
    systemInit .main
    processInit .main
    uiInitState
    if ← uiInitialize then
      systemUpdate .main
      updateOf .main
      if ← collectorStart then
        loop mainRound
        collectorStop
        uiCleanup
        processDestroy
        systemDestroy
        pure 0
      else
        uiCleanup
        systemDestroy
        processDestroy
        pure 1
    else
      systemDestroy
      processDestroy
      pure 1

/-! ## Who may look at what -/

/-- While there are two threads. The collector reads `processes` without the lock, and
    writes it with the lock only. -/
def lifetimes : Protocol Slot where
  mutex := .lock
  own
    | .main => fun
      | .processes | .incoming | .pids | .perCoreCpuUsage | .fd .helper | .dir .helper => 0
      | .lock | .wake => 1
      | _ => 2
    | .helper => fun
      | .incoming | .pids | .fd .helper | .dir .helper => 2
      | .processes | .lock | .wake => 1
      | _ => 0
  guarded
    | .processes => 1
    | .perCoreCpuUsage => 2
    | _ => 0
  kept
    | .processes | .incoming | .pids | .perCoreCpuUsage => .settled
    | .lock | .wake => .live
    | _ => .gone
  whole s := by
    cases s with
    | fd side | dir side => cases side <;> rfl
    | _ => rfl
  mutex_own side := by cases side <;> rfl
  mutex_kept := rfl

/-! ## The functions both threads use -/

theorem fd_own (side : Side) (m : Mode) : lifetimes.share side m (.fd side) = 2 := by
  cases side <;> cases m <;> rfl

theorem dir_own (side : Side) (m : Mode) : lifetimes.share side m (.dir side) = 2 := by
  cases side <;> cases m <;> rfl

section

variable {side : Side} {m : Mode} {wants : Slot → Want}

theorem readRest_takes (gone : wants (.fd side) = .gone) (n : ℕ) :
    Takes lifetimes side ⟨m, Function.update wants (.fd side) .live⟩ (readRest side n)
      fun _ => ⟨m, wants⟩ := by
  have closes : Takes lifetimes side ⟨m, Function.update wants (.fd side) .live⟩ (close (.fd side))
      fun _ => ⟨m, wants⟩ := Takes.close_back gone (fd_own side m)
  induction n with
  | zero => exact closes.bind fun _ => .ret rfl
  | succ n ih =>
      refine (Takes.use (by simp) (by simp [fd_own])).bind fun _ => Takes.choice.bind fun read => ?_
      split
      · exact closes.bind fun _ => .ret rfl
      · exact closes.bind fun _ => .ret rfl
      · exact ih

theorem readFile_takes (gone : wants (.fd side) = .gone) :
    Takes lifetimes side ⟨m, wants⟩ (readFile side) fun _ => ⟨m, wants⟩ := by
  refine Takes.with_acquired (.inl gone) (fd_own side m) ?_ (.ret rfl)
  exact Takes.choice.bind fun n => readRest_takes gone n

theorem countFds_takes (gone : wants (.dir side) = .gone) :
    Takes lifetimes side ⟨m, wants⟩ (countFdsOf side) fun _ => ⟨m, wants⟩ := by
  refine Takes.with_acquired (.inl gone) (dir_own side m) ?_ (.ret rfl)
  refine Takes.bind ?_ fun _ => Takes.close_back gone (dir_own side m)
  refine Takes.loop ?_
  exact (Takes.use (by simp) (by simp [dir_own])).bind fun _ => .ret rfl

theorem cpuCount_takes (gone : wants (.fd side) = .gone) :
    Takes lifetimes side ⟨m, wants⟩ (cpuCount side) fun _ => ⟨m, wants⟩ := by
  refine Takes.choice.bind fun _ => .ite (fun _ => ?_) fun _ => .ret rfl
  exact (readFile_takes gone).bind fun _ => .ret rfl

theorem reserve_takes {s : Slot} (settled : wants s = .settled)
    (mine : lifetimes.share side m s = 2) :
    Takes lifetimes side ⟨m, wants⟩ (reserve s) fun _ => ⟨m, wants⟩ :=
  Takes.choice.bind fun _ => .ite (fun _ => .regrow settled mine) fun _ => .ret rfl

theorem push_takes {s : Slot} (settled : wants s = .settled)
    (mine : lifetimes.share side m s = 2) :
    Takes lifetimes side ⟨m, wants⟩ (push s) fun _ => ⟨m, wants⟩ :=
  (reserve_takes settled mine).bind fun _ =>
    .ite (fun _ => .touch settled (by omega)) fun _ => .ret rfl

/-- What a thread that fills the sample knows and has. -/
structure Collects (side : Side) (m : Mode) (wants : Slot → Want) : Prop where
  fd : wants (.fd side) = .gone
  dir : wants (.dir side) = .gone
  pids : wants .pids = .settled
  incoming : wants .incoming = .settled
  processes : wants .processes = .settled
  pids_own : lifetimes.share side m .pids = 2
  incoming_own : lifetimes.share side m .incoming = 2
  processes_seen : 1 ≤ lifetimes.share side m .processes

theorem listPids_takes (collects : Collects side m wants) :
    Takes lifetimes side ⟨m, wants⟩ (listPidsOf side) fun _ => ⟨m, wants⟩ := by
  refine Takes.with_acquired (.inl collects.dir) (dir_own side m) ?_ (.ret rfl)
  refine Takes.bind ?_ fun _ => (Takes.close_back collects.dir (dir_own side m)).bind fun _ =>
    (Takes.touch collects.pids (by simp [collects.pids_own])).bind fun _ => .ret rfl
  refine Takes.loop ?_
  refine (Takes.use (by simp) (by simp [dir_own])).bind fun _ => Takes.choice.bind fun entry => ?_
  have pushes : Takes lifetimes side ⟨m, Function.update wants (.dir side) .live⟩ pushPid
      fun _ => ⟨m, Function.update wants (.dir side) .live⟩ :=
    push_takes (by simp [collects.pids]) collects.pids_own
  exact Takes.ite (fun _ => pushes.bind fun _ => .ret rfl) fun _ => .ret rfl

theorem readProcessInfo_takes (collects : Collects side m wants) :
    Takes lifetimes side ⟨m, wants⟩ (readProcessInfoOf side) fun _ => ⟨m, wants⟩ := by
  have reads := readFile_takes (m := m) collects.fd
  have touches : Takes lifetimes side ⟨m, wants⟩ (touch .incoming) fun _ => ⟨m, wants⟩ :=
    .touch collects.incoming (by simp [collects.incoming_own])
  refine touches.bind fun _ => reads.bind fun _ => .ite (fun _ => ?_) fun _ => .ret rfl
  refine Takes.choice.bind fun _ => .ite (fun _ => .ret rfl) fun _ => ?_
  refine reads.bind fun _ => reads.bind fun _ => reads.bind fun _ => ?_
  exact (countFds_takes collects.dir).bind fun _ => touches.bind fun _ => .ret rfl

theorem collect_takes (collects : Collects side m wants) :
    Takes lifetimes side ⟨m, wants⟩ (collectOf side) fun _ => ⟨m, wants⟩ := by
  have incoming : Takes lifetimes side ⟨m, wants⟩ (touch .incoming) fun _ => ⟨m, wants⟩ :=
    .touch collects.incoming (by simp [collects.incoming_own])
  have processes : Takes lifetimes side ⟨m, wants⟩ (touch .processes) fun _ => ⟨m, wants⟩ :=
    .touch collects.processes collects.processes_seen
  refine (listPids_takes collects).bind fun _ => Takes.loop ?_
  refine (Takes.touch collects.pids (by simp [collects.pids_own])).bind fun _ => ?_
  refine (reserve_takes collects.incoming collects.incoming_own).bind fun _ => ?_
  refine Takes.ite (fun _ => ?_) fun _ => .ret rfl
  refine (readProcessInfo_takes collects).bind fun _ => ?_
  exact Takes.ite (fun _ => processes.bind fun _ => incoming.bind fun _ => .ret rfl)
    fun _ => .ret rfl

theorem publish_takes (collects : Collects side m wants)
    (processes_own : lifetimes.share side m .processes = 2) :
    Takes lifetimes side ⟨m, wants⟩ publishOf fun _ => ⟨m, wants⟩ := by
  refine (Takes.touch collects.processes collects.processes_seen).bind fun _ => ?_
  refine (Takes.touch collects.incoming (by simp [collects.incoming_own])).bind fun _ => ?_
  exact .swap (collects.processes.trans collects.incoming.symm) processes_own collects.incoming_own

theorem systemUpdateCpuStats_takes (gone : wants (.fd side) = .gone)
    (settled : wants .perCoreCpuUsage = .settled)
    (mine : lifetimes.share side m .perCoreCpuUsage = 2) :
    Takes lifetimes side ⟨m, wants⟩ (systemUpdateCpuStats side) fun _ => ⟨m, wants⟩ := by
  refine (readFile_takes gone).bind fun _ => .ite (fun _ => .loop ?_) fun _ => .ret rfl
  refine Takes.choice.bind fun _ => .ite (fun _ => ?_) fun _ => .ret rfl
  exact (push_takes settled mine).bind fun _ => .ret rfl

theorem systemUpdate_takes (gone : wants (.fd side) = .gone)
    (settled : wants .perCoreCpuUsage = .settled)
    (mine : lifetimes.share side m .perCoreCpuUsage = 2) :
    Takes lifetimes side ⟨m, wants⟩ (systemUpdate side) fun _ => ⟨m, wants⟩ := by
  have reads := readFile_takes (m := m) gone
  have info : Takes lifetimes side ⟨m, wants⟩ (systemUpdateInfo side) fun _ => ⟨m, wants⟩ :=
    reads.bind fun _ => .ite (fun _ => reads.bind fun _ => .ret rfl) fun _ => .ret rfl
  refine info.bind fun _ => (systemUpdateCpuStats_takes gone settled mine).bind fun _ => ?_
  exact reads.bind fun _ => reads.bind fun _ => .ret rfl

end

/-! ## The threads -/

/-- What is known between two functions of the monitors, the four windows, the rows of
    the list, the screen, and the mutex with its condition. -/
def knows (system process windows rows screen collector : Want) : Slot → Want
  | .perCoreCpuUsage => system
  | .processes | .incoming | .pids => process
  | .systemWin | .contentWin | .statusWin | .helpWin => windows
  | .displayedPids | .sorted => rows
  | .mainWin => screen
  | .lock | .wake => collector
  | _ => .gone

/-- While there are two threads. -/
def both : Slot → Want := knows .settled .settled .settled .settled .live .live

theorem both_settled : lifetimes.Settled both := by
  intro s seen
  cases s with
  | fd side | dir side => rfl
  | _ => first | rfl | simp [lifetimes] at seen

theorem collectorMain_takes :
    Takes lifetimes .helper ⟨.free, both⟩ collectorMain fun _ => ⟨.free, both⟩ := by
  have collects : ∀ m, Collects .helper m both := fun m => by
    constructor <;> first | rfl | (cases m <;> decide)
  have waits : Takes lifetimes .helper ⟨.holding, both⟩ timedWait fun _ => ⟨.holding, both⟩ :=
    (Takes.use rfl (by decide)).bind fun _ =>
      (Takes.unlocking both_settled).bind fun _ => .locking both_settled
  refine (Takes.locking both_settled).bind fun _ => Takes.bind (.loop ?_) fun _ =>
    .unlocking both_settled
  refine Takes.bind (.loop (waits.bind fun _ => .ret rfl)) fun _ => Takes.choice.bind fun _ => ?_
  refine Takes.ite (fun _ => .ret rfl) fun _ => (Takes.unlocking both_settled).bind fun _ => ?_
  refine (collect_takes (collects .free)).bind fun _ => (Takes.locking both_settled).bind fun _ => ?_
  refine (systemUpdate_takes rfl rfl rfl).bind fun _ => ?_
  exact (publish_takes (collects .holding) rfl).bind fun _ => .ret rfl

section

variable {m : Mode} {system process windows rows screen collector : Want}

/-- What the main thread alone uses is its own throughout. -/
theorem main_own {s : Slot} (mine : lifetimes.own .main s = 2) :
    lifetimes.share .main m s = 2 := by
  have whole := lifetimes.whole s
  cases m <;> simp only [Protocol.share] <;> omega

theorem main_seen {s : Slot} (mine : lifetimes.own .main s = 2) :
    1 ≤ lifetimes.share .main m s :=
  (main_own mine).symm ▸ Nat.le_succ 1

/-- `delwin` of a window that may be null. -/
theorem deleteWindow_takes {wants : Slot → Want} {win : Slot} (settled : wants win = .settled)
    (mine : lifetimes.share .main m win = 2) :
    Takes lifetimes .main ⟨m, wants⟩ (deleteWindow win)
      fun _ => ⟨m, Function.update wants win .gone⟩ := by
  have seen : 1 ≤ lifetimes.share .main m win := by omega
  refine (Takes.act (a := .test) (by rw [settled]; rfl) seen).bind fun set => ?_
  cases set with
  | true =>
      have known : Function.update wants win .live win = .live := Function.update_self _ _ _
      have closes := Takes.close known mine
      simpa [Function.update_idem] using closes
  | false =>
      refine Takes.forget (fun t => ?_) (.ret rfl)
      by_cases same : t = win
      · subst same
        intro h allows
        simp_all [Want.Allows]
      · simp only [Function.update_of_ne same]
        exact fun _ allows => allows

theorem destroyWindows_takes :
    Takes lifetimes .main ⟨m, knows system process .settled rows screen collector⟩ destroyWindows
      fun _ => ⟨m, knows system process .null rows screen collector⟩ := by
  refine (deleteWindow_takes rfl (main_own rfl)).bind fun _ => ?_
  refine (deleteWindow_takes rfl (main_own rfl)).bind fun _ => ?_
  refine (deleteWindow_takes rfl (main_own rfl)).bind fun _ => ?_
  refine (deleteWindow_takes rfl (main_own rfl)).bind fun _ => ?_
  refine (Takes.clear (.inl rfl) (main_own rfl)).bind fun _ => ?_
  refine (Takes.clear (.inl rfl) (main_own rfl)).bind fun _ => ?_
  refine (Takes.clear (.inl rfl) (main_own rfl)).bind fun _ => ?_
  refine (Takes.clear (.inl rfl) (main_own rfl)).weaken (fun _ => rfl) fun _ s => ?_
  cases s <;> exact fun _ allows => allows

theorem createWindows_takes (gone : windows = .gone ∨ windows = .null) :
    Takes lifetimes .main ⟨m, knows system process windows rows screen collector⟩ createWindows
      fun _ => ⟨m, knows system process .settled rows screen collector⟩ := by
  refine (Takes.acquire gone (main_own rfl)).bind fun _ => ?_
  refine (Takes.acquire gone (main_own rfl)).bind fun _ => ?_
  refine (Takes.acquire gone (main_own rfl)).bind fun _ => ?_
  refine (Takes.acquire gone (main_own rfl)).bind fun _ => Takes.ret ?_
  congr 1
  funext s
  cases s <;> rfl

/-- A table with a tree of `draw_process_tree` in it. -/
def withTree (wants : Slot → Want) (tree kids fill : Want) : Slot → Want
  | .childStart | .childCount | .roots => tree
  | .childPids => kids
  | .fill => fill
  | s => wants s

theorem treeDestroy_takes {wants : Slot → Want} {fill : Want} :
    Takes lifetimes .main ⟨m, withTree wants .settled .settled fill⟩ treeDestroy
      fun _ => ⟨m, withTree wants .null .null fill⟩ := by
  refine (Takes.release rfl (main_own rfl)).bind fun _ => ?_
  refine (Takes.release rfl (main_own rfl)).bind fun _ => ?_
  refine (Takes.release rfl (main_own rfl)).bind fun _ => ?_
  refine (Takes.release rfl (main_own rfl)).bind fun _ => ?_
  refine (Takes.clear (.inl rfl) (main_own rfl)).bind fun _ => ?_
  refine (Takes.clear (.inl rfl) (main_own rfl)).bind fun _ => ?_
  refine (Takes.clear (.inl rfl) (main_own rfl)).bind fun _ => ?_
  refine (Takes.clear (.inl rfl) (main_own rfl)).weaken (fun _ => rfl) fun _ s => ?_
  cases s <;> exact fun _ allows => allows

/-- What is known after a tree was built or not. -/
def built (m : Mode) (wants : Slot → Want) (ok : Bool) : Stand Slot :=
  ⟨m, if ok then withTree wants .settled .settled .gone else withTree wants .null .null .gone⟩

theorem treeFailed_takes {wants : Slot → Want} :
    Takes lifetimes .main ⟨m, withTree wants .settled .settled .settled⟩ treeFailed
      (built m wants) := by
  refine (Takes.release rfl (main_own rfl)).bind fun _ => ?_
  refine Takes.forget (fun s => ?_) (treeDestroy_takes.bind fun _ => .ret rfl)
  cases s <;> exact .refl _

section

variable {wants : Slot → Want} (processes : wants .processes = .settled)
  (seen : 1 ≤ lifetimes.share .main m .processes)
include processes seen

theorem treeFill_takes :
    Takes lifetimes .main ⟨m, withTree wants .settled .settled .settled⟩ treeFill
      (built m wants) := by
  have sample : withTree wants .settled .settled .settled .processes = .settled := processes
  refine (Takes.touch sample seen).bind fun _ => ?_
  refine (Takes.touch rfl (main_seen rfl)).bind fun _ => ?_
  refine (Takes.touch rfl (main_seen rfl)).bind fun _ => ?_
  refine (Takes.touch rfl (main_seen rfl)).bind fun _ => ?_
  refine (Takes.touch rfl (main_seen rfl)).bind fun _ => ?_
  refine (Takes.release rfl (main_own rfl)).bind fun _ => ?_
  refine Takes.forget (fun s => ?_) (.ret rfl)
  cases s <;> exact .refl _

theorem treeCount_takes :
    Takes lifetimes .main ⟨m, withTree wants .settled .null .settled⟩ treeCount
      (built m wants) := by
  have sample : withTree wants .settled .null .settled .processes = .settled := processes
  refine (Takes.touch sample seen).bind fun _ => ?_
  refine (Takes.touch rfl (main_seen rfl)).bind fun _ => ?_
  refine (Takes.touch rfl (main_seen rfl)).bind fun _ => ?_
  refine (Takes.touch rfl (main_seen rfl)).bind fun _ => ?_
  refine Takes.choice.bind fun _ => .ite (fun _ => ?_) fun _ => ?_
  · refine Takes.forget (fun s => ?_) (treeFill_takes processes seen)
    cases s <;> first | exact .refl _ | exact Want.null_settled
  · refine (Takes.acquire (.inr rfl) (main_own rfl)).bind fun _ => ?_
    refine Takes.forget (fun s => ?_)
      (.ite (fun _ => treeFill_takes processes seen) fun _ => treeFailed_takes)
    cases s <;> exact .refl _

/-- A failed build leaves nothing behind. -/
theorem treeBuild_takes :
    Takes lifetimes .main ⟨m, withTree wants .gone .gone .gone⟩ treeBuild (built m wants) := by
  refine (Takes.clear (.inl rfl) (main_own rfl)).bind fun _ => ?_
  refine (Takes.clear (.inl rfl) (main_own rfl)).bind fun _ => ?_
  refine (Takes.clear (.inl rfl) (main_own rfl)).bind fun _ => ?_
  refine (Takes.clear (.inl rfl) (main_own rfl)).bind fun _ => ?_
  refine (Takes.clear (.inl rfl) (main_own rfl)).bind fun _ => ?_
  refine Takes.choice.bind fun _ => .ite (fun _ => ?_) fun _ => ?_
  · refine Takes.forget (fun s => ?_) (.ret rfl)
    cases s <;> first | exact .refl _ | exact Want.null_settled | exact Want.null_gone
  · refine (Takes.acquire (.inr rfl) (main_own rfl)).bind fun _ => ?_
    refine (Takes.acquire (.inr rfl) (main_own rfl)).bind fun _ => ?_
    refine (Takes.acquire (.inr rfl) (main_own rfl)).bind fun _ => ?_
    refine (Takes.acquire (.inr rfl) (main_own rfl)).bind fun _ => ?_
    refine (Takes.test rfl (main_seen rfl)).bind fun _ => ?_
    refine (Takes.test rfl (main_seen rfl)).bind fun _ => ?_
    refine (Takes.test rfl (main_seen rfl)).bind fun _ => ?_
    refine (Takes.test rfl (main_seen rfl)).bind fun _ => .ite (fun _ => ?_) fun _ => ?_
    · refine Takes.forget (fun s => ?_) (treeCount_takes processes seen)
      cases s <;> exact .refl _
    · refine Takes.forget (fun s => ?_) treeFailed_takes
      cases s <;> first | exact .refl _ | exact Want.null_settled

end

theorem drawList_takes :
    Takes lifetimes .main ⟨.holding, both⟩ drawListOf fun _ => ⟨.holding, both⟩ := by
  have content : Takes lifetimes .main ⟨.holding, both⟩ (touch .contentWin)
      fun _ => ⟨.holding, both⟩ := .touch rfl (main_seen rfl)
  refine content.bind fun _ => (reserve_takes rfl (main_own rfl)).bind fun _ => ?_
  refine Takes.ite (fun _ => ?_) fun _ => content
  refine (reserve_takes rfl (main_own rfl)).bind fun _ => Takes.ite (fun _ => ?_) fun _ => content
  refine (Takes.touch rfl (main_seen rfl)).bind fun _ => ?_
  refine (Takes.touch rfl (by decide)).bind fun _ => ?_
  exact (Takes.touch rfl (main_seen rfl)).bind fun _ => content

theorem drawDetail_takes :
    Takes lifetimes .main ⟨.holding, both⟩ drawDetailOf fun _ => ⟨.holding, both⟩ := by
  refine (Takes.touch rfl (main_seen rfl)).bind fun _ => ?_
  refine (Takes.touch rfl (main_seen rfl)).bind fun _ => ?_
  refine (Takes.touch rfl (by decide)).bind fun _ => ?_
  exact .touch rfl (main_seen rfl)

/-- The tree is gone again when it is drawn. -/
theorem drawTree_takes :
    Takes lifetimes .main ⟨.holding, both⟩ drawTreeOf fun _ => ⟨.holding, both⟩ := by
  refine (Takes.touch rfl (main_seen rfl)).bind fun _ => ?_
  have none : both = withTree both .gone .gone .gone := by
    funext s
    cases s <;> rfl
  have builds : Takes lifetimes .main ⟨.holding, both⟩ treeBuild (built .holding both) := by
    nth_rewrite 1 [none]
    exact treeBuild_takes rfl (by decide)
  refine builds.bind fun ok => ?_
  cases ok with
  | true =>
      have drawn : Takes lifetimes .main (built .holding both true)
          (do
            touch .roots
            touch .processes
            touch .childCount
            touch .childPids
            touch .childStart
            touch .contentWin
            pure true)
          fun _ => built .holding both true := by
        refine (Takes.touch rfl (main_seen rfl)).bind fun _ => ?_
        refine (Takes.touch rfl (by decide)).bind fun _ => ?_
        refine (Takes.touch rfl (main_seen rfl)).bind fun _ => ?_
        refine (Takes.touch rfl (main_seen rfl)).bind fun _ => ?_
        refine (Takes.touch rfl (main_seen rfl)).bind fun _ => ?_
        exact (Takes.touch rfl (main_seen rfl)).bind fun _ => .ret rfl
      refine Takes.bind (.loop drawn) fun _ => treeDestroy_takes.weaken (fun _ => rfl) fun _ s => ?_
      cases s <;> first | exact .refl _ | exact Want.null_gone
  | false =>
      refine Takes.forget (fun s => ?_) (.touch rfl (main_seen rfl))
      cases s <;> first | exact .refl _ | exact Want.null_gone

theorem draw_takes :
    Takes lifetimes .main ⟨.holding, both⟩ drawAll fun _ => ⟨.holding, both⟩ := by
  have windows : ∀ win, win = .systemWin ∨ win = .contentWin ∨ win = .statusWin ∨ win = .helpWin →
      Takes lifetimes .main ⟨.holding, both⟩ (touch win) fun _ => ⟨.holding, both⟩ := by
    rintro win (rfl | rfl | rfl | rfl) <;> exact .touch rfl (main_seen rfl)
  have resized : Takes lifetimes .main ⟨.holding, both⟩ resizeWindows fun _ => ⟨.holding, both⟩ :=
    Takes.choice.bind fun _ => .ite
      (fun _ => destroyWindows_takes.bind fun _ => createWindows_takes (.inr rfl)) fun _ => .ret rfl
  refine (Takes.use rfl (main_seen rfl)).bind fun _ => resized.bind fun _ => ?_
  have view : Takes lifetimes .main ⟨.holding, both⟩ drawViewOf fun _ => ⟨.holding, both⟩ := by
    refine Takes.choice.bind fun view => ?_
    split
    · exact drawList_takes
    · exact drawDetail_takes
    · exact drawTree_takes
    · exact windows _ (by simp)
  refine (windows _ (by simp)).bind fun _ => view.bind fun _ => ?_
  refine (windows _ (by simp)).bind fun _ => (windows _ (by simp)).bind fun _ => ?_
  refine (windows _ (by simp)).bind fun _ => (windows _ (by simp)).bind fun _ => ?_
  exact (windows _ (by simp)).bind fun _ => windows _ (by simp)

theorem confirm_takes :
    Takes lifetimes .main ⟨.free, both⟩ confirmOf fun _ => ⟨.free, both⟩ := by
  have windows : ∀ win, win = .systemWin ∨ win = .contentWin ∨ win = .statusWin ∨ win = .helpWin →
      Takes lifetimes .main ⟨.free, both⟩ (touch win) fun _ => ⟨.free, both⟩ := by
    rintro win (rfl | rfl | rfl | rfl) <;> exact .touch rfl (main_seen rfl)
  refine Takes.choice.bind fun _ => .ite (fun _ => .ret rfl) fun _ => ?_
  refine Takes.with_acquired (.inl rfl) (main_own rfl) ?_ (.ret rfl)
  refine (Takes.use rfl (main_seen rfl)).bind fun _ => ?_
  refine (Takes.use rfl (main_seen rfl)).bind fun _ => ?_
  refine (Takes.close_back rfl (main_own rfl)).bind fun _ => ?_
  refine (windows _ (by simp)).bind fun _ => (windows _ (by simp)).bind fun _ => ?_
  refine (windows _ (by simp)).bind fun _ => (windows _ (by simp)).bind fun _ => ?_
  exact Takes.choice.bind fun _ => .ret rfl

theorem signalWake_takes :
    Takes lifetimes .main ⟨.free, both⟩ signalWake fun _ => ⟨.free, both⟩ := by
  refine (Takes.locking both_settled).bind fun _ => ?_
  exact (Takes.use rfl (by decide)).bind fun _ => .unlocking both_settled

theorem signalSelected_takes :
    Takes lifetimes .main ⟨.free, both⟩ signalSelected fun _ => ⟨.free, both⟩ := by
  refine (Takes.touch rfl (main_seen rfl)).bind fun _ => ?_
  refine Takes.choice.bind fun _ => .ite (fun _ => ?_) fun _ => .ret rfl
  refine (Takes.locking both_settled).bind fun _ => (Takes.touch rfl (by decide)).bind fun _ => ?_
  refine (Takes.unlocking both_settled).bind fun _ => Takes.choice.bind fun _ => ?_
  exact .ite (fun _ => confirm_takes.bind fun _ => .ret rfl) fun _ => .ret rfl

theorem mainRound_takes :
    Takes lifetimes .main ⟨.free, both⟩ mainRound fun _ => ⟨.free, both⟩ := by
  have runs : ∀ key, Takes lifetimes .main ⟨.free, both⟩ (runKey key) fun _ => ⟨.free, both⟩ := by
    intro key
    unfold runKey
    split
    · exact signalWake_takes
    · exact signalSelected_takes
    · exact .touch rfl (main_seen rfl)
    · exact .ret rfl
  have draws : Takes lifetimes .main ⟨.holding, both⟩ redraw fun _ => ⟨.holding, both⟩ :=
    Takes.choice.bind fun _ => .ite (fun _ => draw_takes) fun _ => .ret rfl
  have key : Takes lifetimes .main ⟨.free, both⟩ getInput fun _ => ⟨.free, both⟩ :=
    (Takes.use rfl (main_seen rfl)).bind fun _ => .choice
  refine key.bind fun key => (runs key).bind fun _ => (Takes.locking both_settled).bind fun _ => ?_
  refine draws.bind fun _ => (Takes.unlocking both_settled).bind fun _ => ?_
  exact Takes.choice.bind fun _ => .ret rfl

/-- What is known before the collector is started and after it is joined. -/
def single : Slot → Want := knows .settled .settled .settled .settled .live .gone

/-- A failed start leaves nothing behind. -/
theorem collectorStart_takes :
    Takes lifetimes .main ⟨.alone, single⟩ collectorStart
      fun started => if started then ⟨.free, both⟩ else ⟨.alone, single⟩ := by
  refine (Takes.clear (.inl rfl) rfl).bind fun _ => (Takes.clear (.inl rfl) rfl).bind fun _ => ?_
  refine Takes.with_acquired (.inr rfl) rfl ?_ ?_
  · refine Takes.with_acquired (.inr rfl) rfl ?_ ?_
    · refine Takes.forget (fun s => ?_) ((Takes.spawning both_settled).bind fun started => ?_)
      · cases s <;> exact .refl _
      · cases started with
        | true => exact .ret rfl
        | false =>
            refine (Takes.close rfl rfl).bind fun _ => ?_
            refine (Takes.close rfl rfl).bind fun _ => ?_
            refine Takes.forget (fun s => ?_) (.ret rfl)
            cases s <;> exact .refl _
    · refine (Takes.close rfl rfl).bind fun _ => ?_
      refine Takes.forget (fun s => ?_) (.ret rfl)
      cases s <;> first | exact .refl _ | exact Want.null_gone
  · refine Takes.forget (fun s => ?_) (.ret rfl)
    cases s <;> first | exact .refl _ | exact Want.null_gone

theorem collectorStop_takes :
    Takes lifetimes .main ⟨.free, both⟩ collectorStop fun _ => ⟨.alone, single⟩ := by
  refine signalWake_takes.bind fun _ => (Takes.joining both_settled).bind fun _ => ?_
  refine (Takes.close rfl rfl).bind fun _ => ?_
  refine (Takes.close rfl rfl).weaken (fun _ => rfl) fun _ s => ?_
  cases s <;> exact .refl _

theorem systemInit_takes :
    Takes lifetimes .main ⟨.alone, fun _ => .gone⟩ (systemInit .main)
      fun _ => ⟨.alone, knows .settled .gone .gone .gone .gone .gone⟩ := by
  have known : Takes lifetimes .main ⟨.alone, knows .settled .gone .gone .gone .gone .gone⟩
      (do cpuCount .main; systemUpdateCpuStats .main)
      fun _ => ⟨.alone, knows .settled .gone .gone .gone .gone .gone⟩ :=
    (cpuCount_takes rfl).bind fun _ => systemUpdateCpuStats_takes rfl rfl rfl
  refine (Takes.clear (.inl rfl) rfl).bind fun _ => Takes.forget (fun s => ?_) known
  cases s <;> first | exact .refl _ | exact Want.null_settled

theorem processInit_takes :
    Takes lifetimes .main ⟨.alone, knows .settled .gone .gone .gone .gone .gone⟩ (processInit .main)
      fun _ => ⟨.alone, knows .settled .settled .gone .gone .gone .gone⟩ := by
  refine (Takes.clear (.inl rfl) rfl).bind fun _ => (Takes.clear (.inl rfl) rfl).bind fun _ => ?_
  refine (Takes.clear (.inl rfl) rfl).bind fun _ => (Takes.clear (.inr rfl) rfl).bind fun _ => ?_
  refine Takes.forget (fun s => ?_) (cpuCount_takes rfl)
  cases s <;> first | exact .refl _ | exact Want.null_settled

theorem uiInitState_takes :
    Takes lifetimes .main ⟨.alone, knows system process .gone .gone .gone collector⟩ uiInitState
      fun _ => ⟨.alone, knows system process .null .null .null collector⟩ := by
  refine (Takes.clear (.inl rfl) rfl).bind fun _ => (Takes.clear (.inl rfl) rfl).bind fun _ => ?_
  refine (Takes.clear (.inl rfl) rfl).bind fun _ => (Takes.clear (.inl rfl) rfl).bind fun _ => ?_
  refine (Takes.clear (.inl rfl) rfl).bind fun _ => (Takes.clear (.inl rfl) rfl).bind fun _ => ?_
  refine (Takes.clear (.inl rfl) rfl).weaken (fun _ => rfl) fun _ s => ?_
  cases s <;> exact .refl _

theorem uiInitialize_takes :
    Takes lifetimes .main ⟨.alone, knows system process .null .null .null collector⟩ uiInitialize
      fun ok => ⟨.alone, if ok then knows system process .settled .settled .live collector else
        knows system process .null .null .null collector⟩ := by
  refine Takes.with_acquired (.inr rfl) rfl ?_ (.ret rfl)
  have creates : Takes lifetimes .main ⟨.alone, knows system process .null .null .live collector⟩
      createWindows fun _ => ⟨.alone, knows system process .settled .null .live collector⟩ :=
    createWindows_takes (.inr rfl)
  refine Takes.forget (fun s => ?_) (creates.bind fun _ => ?_)
  · cases s <;> exact .refl _
  · refine Takes.forget (fun s => ?_) (.ret rfl)
    cases s <;> first | exact .refl _ | exact Want.null_settled

theorem uiCleanup_takes :
    Takes lifetimes .main ⟨.alone, knows system process .settled .settled .live collector⟩ uiCleanup
      fun _ => ⟨.alone, knows system process .gone .gone .gone collector⟩ := by
  refine destroyWindows_takes.bind fun _ => (Takes.release rfl rfl).bind fun _ => ?_
  refine (Takes.clear (.inl rfl) rfl).bind fun _ => (Takes.release rfl rfl).bind fun _ => ?_
  refine (Takes.clear (.inl rfl) rfl).bind fun _ => ?_
  refine (Takes.close rfl rfl).weaken (fun _ => rfl) fun _ s => ?_
  cases s <;> first | exact .refl _ | exact Want.null_gone

theorem processDestroy_takes :
    Takes lifetimes .main ⟨.alone, knows system .settled windows rows screen collector⟩
      processDestroy
      fun _ => ⟨.alone, knows system .gone windows rows screen collector⟩ := by
  refine (Takes.release rfl rfl).bind fun _ => (Takes.release rfl rfl).bind fun _ => ?_
  refine Takes.bind ((Takes.release rfl rfl).bind fun _ => Takes.clear (.inl rfl) rfl) fun _ => ?_
  refine (Takes.clear (.inl rfl) rfl).bind fun _ => ?_
  refine (Takes.clear (.inl rfl) rfl).weaken (fun _ => rfl) fun _ s => ?_
  cases s <;> first | exact .refl _ | exact Want.null_gone

theorem systemDestroy_takes :
    Takes lifetimes .main ⟨.alone, knows .settled process windows rows screen collector⟩
      systemDestroy
      fun _ => ⟨.alone, knows .gone process windows rows screen collector⟩ := by
  refine (Takes.release rfl rfl).bind fun _ => ?_
  refine (Takes.clear (.inl rfl) rfl).weaken (fun _ => rfl) fun _ s => ?_
  cases s <;> first | exact .refl _ | exact Want.null_gone

/-- Nothing is left, on whichever path `main` returns. -/
theorem program_takes :
    Takes lifetimes .main ⟨.alone, fun _ => .gone⟩ program fun _ => ⟨.alone, fun _ => .gone⟩ := by
  have ended : ∀ code, Takes lifetimes .main ⟨.alone, knows .gone .gone .gone .gone .gone .gone⟩
      (pure code : Code ℕ) fun _ => ⟨.alone, fun _ => .gone⟩ := by
    intro code
    refine Takes.forget (fun s => ?_) (.ret rfl)
    cases s <;> exact .refl _
  have collects : Collects .main .alone single := by
    constructor <;> first | rfl | decide
  refine Takes.choice.bind fun _ => .ite (fun _ => .ret rfl) fun _ => ?_
  refine systemInit_takes.bind fun _ => processInit_takes.bind fun _ => ?_
  refine uiInitState_takes.bind fun _ => uiInitialize_takes.bind fun ok => ?_
  cases ok with
  | false =>
      refine systemDestroy_takes.bind fun _ => processDestroy_takes.bind fun _ => ?_
      refine Takes.forget (fun s => ?_) (ended 1)
      cases s <;> first | exact .refl _ | exact Want.null_gone
  | true =>
      refine (systemUpdate_takes rfl rfl rfl).bind fun _ => ?_
      refine Takes.bind ((collect_takes collects).bind fun _ => publish_takes collects rfl) fun _ => ?_
      refine collectorStart_takes.bind fun started => ?_
      cases started with
      | true =>
          refine (Takes.loop mainRound_takes).bind fun _ => collectorStop_takes.bind fun _ => ?_
          refine uiCleanup_takes.bind fun _ => processDestroy_takes.bind fun _ => ?_
          exact systemDestroy_takes.bind fun _ => ended 0
      | false =>
          refine uiCleanup_takes.bind fun _ => systemDestroy_takes.bind fun _ => ?_
          exact processDestroy_takes.bind fun _ => ended 1

end

/-! ## The program -/

/-- `main` with the collector's thread. -/
abbrev lifetimeSystem : LabelledSystem (Running Slot ℕ) Side :=
  sharedSystem lifetimes.mutex collectorMain program

/-- Whatever fails and however the threads take turns, neither thread uses, gives back or
    overwrites a thing it must not, or waits for a lock it has. Everything that is out is
    named by one variable. The program can always be carried on until `main` returns, and
    where it has returned the collector is joined, the lock free and nothing left. -/
theorem program_gives_back {s : Running Slot ℕ} (reachable : lifetimeSystem.Reachable s) :
    (¬ s.main.Undefined .lock .main s.ledger s.holder (s.helper ≠ none)) ∧
      (∀ script, s.helper = some script →
        ¬ script.Undefined .lock .helper s.ledger s.holder True) ∧
      (∀ thing ∈ s.ledger.live, ∃! slot, s.ledger.held slot = some thing) ∧
      (∀ code, s.main = .ret code → s.helper = none ∧ s.holder = none ∧ s.ledger.live = ∅) ∧
      ∃ more last code, LabelledSystem.Run lifetimeSystem s more last ∧ last.main = .ret code := by
  have child := Takes.child both_settled collectorMain_takes
  have main := Takes.whole program_takes
  obtain ⟨sound, defined, helper, ended, _⟩ := shared_safe child main reachable
  refine ⟨defined, helper, fun thing out => ?_, fun code returned => ?_,
    shared_ends child main reachable⟩
  · obtain ⟨slot, named⟩ := sound.named thing out
    exact ⟨slot, named, fun other also => sound.apart other slot thing out also named⟩
  · obtain ⟨joined, free, none⟩ := ended code returned
    exact ⟨joined, free, sound.nothing_out none⟩

/-- From its start the program comes to an end at which nothing is left. -/
theorem program_gives_back_example :
    ∃ trace last code, lifetimeSystem.Trace trace last ∧ last.main = .ret code ∧
      last.ledger.live = ∅ := by
  have start : lifetimeSystem.Reachable ⟨.unset Slot, none, program, none⟩ := ⟨[], _, rfl, .refl _⟩
  obtain ⟨more, last, code, run, returned⟩ := (program_gives_back start).2.2.2.2
  have after : lifetimeSystem.Reachable last := ⟨more, _, rfl, run⟩
  exact ⟨more, last, code, ⟨_, rfl, run⟩, returned,
    ((program_gives_back after).2.2.2.1 code returned).2.2⟩

end KernelMonitor
