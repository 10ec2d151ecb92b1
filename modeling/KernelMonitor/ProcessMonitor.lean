import KernelMonitor.Library.KeyedSearch
import KernelMonitor.ProcReader

/-! # The process monitor

Model of `src/process/process_monitor.c`: one sweep of `/proc` into a scratch
buffer, its publication by a buffer swap, and the event window. A buffer is its
address with the cells stored there; address zero is `NULL`. A `double` is an
exact rational.
-/

namespace KernelMonitor

open Library

def commMax : Nat := 64
def cmdlineMax : Nat := 512
def exePathMax : Nat := 512
def eventDescMax : Nat := 64
def maxEvents : Nat := 100

/-- `km_process_info` -/
structure ProcessInfo where
  pid : Int
  ppid : Int
  uid : UInt32
  name : Bytes
  state : UInt8
  priority : Int
  nice : Int
  numThreads : Int
  utime : UInt64
  stime : UInt64
  vmSize : UInt64
  vmRss : UInt64
  cpuPercent : ℚ
  cmdline : Bytes
  exePath : Bytes
  fdCount : Int
  startTime : Int
  pgrp : Int
  session : Int
  ttyNr : Int
  tpgid : Int
  minflt : UInt64
  majflt : UInt64
  minfltRate : ℚ
  majfltRate : ℚ
  deriving DecidableEq, Repr

def ProcessInfo.zero : ProcessInfo where
  pid := 0
  ppid := 0
  uid := 0
  name := []
  state := 0
  priority := 0
  nice := 0
  numThreads := 0
  utime := 0
  stime := 0
  vmSize := 0
  vmRss := 0
  cpuPercent := 0
  cmdline := []
  exePath := []
  fdCount := 0
  startTime := 0
  pgrp := 0
  session := 0
  ttyNr := 0
  tpgid := 0
  minflt := 0
  majflt := 0
  minfltRate := 0
  majfltRate := 0

/-- `memset(info, 0, sizeof(*info))` -/
def ProcessInfo.clear (_info : ProcessInfo) : ProcessInfo := .zero

/-- `km_event_type` -/
inductive EventType where
  | processCreated
  | processTerminated
  | processStateChanged
  | highCpuUsage
  | highMemoryUsage
  deriving DecidableEq, Repr

/-- `km_event` -/
structure Event where
  timestamp : Int
  type : EventType
  pid : Int
  processName : Bytes
  description : Bytes
  deriving DecidableEq, Repr

/-- The figures fixed by `km_process_monitor_init`. -/
structure Constants where
  pageSize : Int
  clockTicks : Int
  bootTime : Int
  pageSize_pos : 0 < pageSize
  clockTicks_pos : 0 < clockTicks

/-- A heap block of process entries. -/
structure Block where
  addr : Nat
  cells : List ProcessInfo
  deriving DecidableEq, Repr

def Block.null : Block := ⟨0, []⟩

/-- `km_process_monitor`. The event window is `events[0..event_count)`. -/
structure ProcessMonitor where
  processes : Block
  count : Nat
  capacity : Nat
  incoming : Block
  incomingCount : Nat
  incomingCapacity : Nat
  events : List Event
  pids : PidList
  constants : Constants
  lastSample : Timespec
  haveLastSample : Bool
  lastScanMs : ℚ

/-- The entries `processes[0..count)`. -/
def ProcessMonitor.sample (m : ProcessMonitor) : List ProcessInfo :=
  m.processes.cells.take m.count

/-- The entries `incoming[0..incoming_count)`. -/
def ProcessMonitor.built (m : ProcessMonitor) : List ProcessInfo :=
  m.incoming.cells.take m.incomingCount

/-- The answers of `sysconf`, `sysinfo` and `time` at start-up. -/
structure Host where
  pageSize : Int
  clockTicks : Int
  uptime : Option Int
  time : Int
  deriving DecidableEq, Repr

/-- The constants with the fallbacks of the source. -/
def Host.constants (host : Host) : Constants where
  pageSize := if host.pageSize ≤ 0 then 4096 else host.pageSize
  clockTicks := if host.clockTicks ≤ 0 then 100 else host.clockTicks
  bootTime := match host.uptime with
    | some uptime => host.time - uptime
    | none => 0
  pageSize_pos := by split <;> omega
  clockTicks_pos := by split <;> omega

/-- `km_process_monitor_init` -/
def ProcessMonitor.init (host : Host) : ProcessMonitor where
  processes := .null
  count := 0
  capacity := 0
  incoming := .null
  incomingCount := 0
  incomingCapacity := 0
  events := []
  pids := .init
  constants := host.constants
  lastSample := ⟨0, 0⟩
  haveLastSample := false
  lastScanMs := 0

/-- `find_in`: the index of the entry the pointer would point at. -/
def findIn (items : List ProcessInfo) (count : Nat) (pid : Int) : Option Nat :=
  keyedSearch ProcessInfo.pid items pid 0 count

/-- `km_process_monitor_find` -/
def ProcessMonitor.find (m : ProcessMonitor) (pid : Int) : Option ProcessInfo :=
  (findIn m.processes.cells m.count pid).bind fun i => m.processes.cells[i]?

/-! ## One process -/

/-- What the calls under `/proc/<pid>/` come back with. -/
structure PidFiles where
  stat : Option Bytes
  statm : Option Bytes
  status : Option Bytes
  cmdline : Option Bytes
  exe : Option Bytes
  fd : Option (List Bytes)
  deriving DecidableEq, Repr

/-- The conversion to `time_t`. -/
def toTime (n : UInt64) : Int := (n.toNat : Int).bmod (2 ^ 64)

/-- The memory figures; zero where `statm` is unreadable. -/
def readMemory (c : Constants) (statm : Option Bytes) (info : ProcessInfo) : ProcessInfo :=
  match statm.bind fun buf => parseProcStatm (cString buf) with
  | none => info
  | some (size, resident, _) =>
      { info with
        vmSize := size * UInt64.ofInt c.pageSize
        vmRss := resident * UInt64.ofInt c.pageSize }

def readUid (status : Option Bytes) (info : ProcessInfo) : ProcessInfo :=
  match status.bind fun buf => parseStatusUid (cString buf) with
  | none => info
  | some uid => { info with uid := uid }

/-- An empty command line marks a kernel thread, shown in square brackets. -/
def readCmdline (cmdline : Option Bytes) (info : ProcessInfo) : ProcessInfo :=
  match readPidCmdline cmdline with
  | some (c :: rest) => { info with cmdline := snprintf cmdlineMax (c :: rest) }
  | _ => { info with cmdline := snprintf cmdlineMax (text "[" ++ info.name ++ text "]") }

def readExe (exe : Option Bytes) (info : ProcessInfo) : ProcessInfo :=
  match exe with
  | none => info
  | some path => { info with exePath := snprintf exePathMax (cString path) }

/-- The fields taken over from the parsed `stat` line. -/
def ProcessInfo.takeStat (info : ProcessInfo) (st : ProcStat) : ProcessInfo :=
  { info with
    state := st.state
    ppid := toInt32 st.ppid
    utime := st.utime
    stime := st.stime
    priority := toInt32 st.priority
    nice := toInt32 st.nice
    numThreads := st.numThreads
    pgrp := toInt32 st.pgrp
    session := toInt32 st.session
    ttyNr := st.ttyNr
    tpgid := toInt32 st.tpgid
    minflt := st.minflt
    majflt := st.majflt }

def readFds (fd : Option (List Bytes)) (info : ProcessInfo) : ProcessInfo :=
  { info with fdCount := if 0 ≤ countFds fd then countFds fd else 0 }

def setStartTime (c : Constants) (info : ProcessInfo) : ProcessInfo :=
  { info with
    startTime := c.bootTime + toTime ((info.utime + info.stime) / UInt64.ofInt c.clockTicks) }

/-- `read_process_info`: the return value and the slot as the call leaves it. A
    failed call leaves it half filled. -/
def readProcessInfo (c : Constants) (pid : Int) (files : PidFiles) (slot : ProcessInfo) :
    Bool × ProcessInfo :=
  let info := { slot.clear with pid := pid }
  match files.stat with
  | none => (false, info)
  | some buf =>
      let (comm, st) := parseProcStat (cString buf) commMax
      let info := match comm with
        | none => info
        | some name => { info with name := name }
      match st with
      | none => (false, info)
      | some st =>
          let info := info.takeStat st
          let info := readMemory c files.statm info
          let info := readUid files.status info
          let info := readCmdline files.cmdline info
          let info := readExe files.exe info
          let info := readFds files.fd info
          (true, setStartTime c info)

/-! ## Rates -/

/-- `calculate_cpu_usage` -/
def calculateCpuUsage (c : Constants) (current previous : ProcessInfo) (secondsElapsed : ℚ) :
    ProcessInfo :=
  let prevTotal := previous.utime + previous.stime
  let currTotal := current.utime + current.stime
  if currTotal < prevTotal then { current with cpuPercent := 0 }
  else
    let timeDiff := currTotal - prevTotal
    if 0 < secondsElapsed ∧ 0 < c.clockTicks then
      { current with
        cpuPercent := (100 * (timeDiff.toNat : ℚ)) / ((c.clockTicks : ℚ) * secondsElapsed) }
    else { current with cpuPercent := 0 }

/-- The rate of one fault counter; zero where the counter went down. -/
def faultRate (current previous : UInt64) (secondsElapsed : ℚ) : ℚ :=
  if previous ≤ current then ((current - previous).toNat : ℚ) / secondsElapsed else 0

/-- `calculate_fault_rates` -/
def calculateFaultRates (current previous : ProcessInfo) (secondsElapsed : ℚ) : ProcessInfo :=
  if secondsElapsed ≤ 0 then { current with minfltRate := 0, majfltRate := 0 }
  else
    { current with
      minfltRate := faultRate current.minflt previous.minflt secondsElapsed
      majfltRate := faultRate current.majflt previous.majflt secondsElapsed }

/-! ## The sweep -/

/-- A successful `realloc`: where the block went and what its new cells hold. -/
structure Grown where
  addr : Nat
  fill : Nat → ProcessInfo

/-- Everything the kernel and the allocator answer during one `collect` call. -/
structure Sweep where
  dir : Option (List Dirent)
  growPids : Int → Bool
  files : Int → PidFiles
  growIncoming : Int → Option Grown
  now : Timespec
  done : Timespec

/-- `realloc` keeps the old cells and leaves the new ones as it found them. -/
def Block.resize (block : Block) (grown : Grown) (newCap : Nat) : Block where
  addr := grown.addr
  cells := (List.range newCap).map fun i => (block.cells[i]?).getD (grown.fill i)

/-- `incoming_reserve`; `none` is its `false`. -/
def incomingReserve (grow : Option Grown) (m : ProcessMonitor) : Option ProcessMonitor :=
  if m.incomingCount = m.incomingCapacity then
    match grow with
    | none => none
    | some grown =>
        let newCap := grownCapacity 512 m.incomingCapacity
        some { m with
          incoming := m.incoming.resize grown newCap
          incomingCapacity := newCap }
  else some m

/-- What `incoming[incoming_count]` holds: an entry of the sample before last, a
    slot left by a failed read, or whatever `realloc` found there. -/
def ProcessMonitor.nextSlot (m : ProcessMonitor) : ProcessInfo :=
  (m.incoming.cells[m.incomingCount]?).getD .zero

/-- The write to `incoming[incoming_count]`. -/
def ProcessMonitor.writeSlot (m : ProcessMonitor) (info : ProcessInfo) : ProcessMonitor :=
  { m with incoming := { m.incoming with cells := m.incoming.cells.set m.incomingCount info } }

/-- The rates of a freshly read entry, against the sample still current. -/
def ProcessMonitor.withRates (m : ProcessMonitor) (seconds : ℚ) (pid : Int)
    (info : ProcessInfo) : ProcessInfo :=
  match m.find pid with
  | some previous =>
      calculateFaultRates (calculateCpuUsage m.constants info previous seconds) previous seconds
  | none => { info with cpuPercent := 0 }

/-- The loop body after a slot was reserved. A slot whose read failed is written
    but not counted. -/
def collectPid (w : Sweep) (seconds : ℚ) (pid : Int) (m : ProcessMonitor) : ProcessMonitor :=
  let (read, info) := readProcessInfo m.constants pid (w.files pid) m.nextSlot
  if read then
    { m.writeSlot (m.withRates seconds pid info) with incomingCount := m.incomingCount + 1 }
  else m.writeSlot info

/-- `collect` up to its loop: the listing, the empty scratch count, the interval. -/
def collectBegin (w : Sweep) (m : ProcessMonitor) : ℚ × ProcessMonitor :=
  let seconds := if m.haveLastSample then clockDiffSeconds m.lastSample w.now else 0
  (seconds, { m with
    pids := (listPids w.dir w.growPids m.pids).2
    incomingCount := 0
    lastSample := w.now
    haveLastSample := true })

/-- The loop over the PIDs not yet read; a failed reserve breaks out of it. -/
def collectLoop (w : Sweep) (seconds : ℚ) : List Int → ProcessMonitor → ProcessMonitor
  | [], m => m
  | pid :: rest, m =>
      match incomingReserve (w.growIncoming pid) m with
      | none => m
      | some m => collectLoop w seconds rest (collectPid w seconds pid m)

def Sweep.scanMs (w : Sweep) : ℚ := clockDiffSeconds w.now w.done * 1000

def collectEnd (w : Sweep) (m : ProcessMonitor) : ProcessMonitor :=
  { m with lastScanMs := w.scanMs }

/-- `km_process_monitor_collect` -/
def collect (w : Sweep) (m : ProcessMonitor) : ProcessMonitor :=
  let (seconds, m) := collectBegin w m
  collectEnd w (collectLoop w seconds m.pids.items m)

/-! ## Publication -/

/-- `push_event` -/
def pushEvent (timestamp : Int) (type : EventType) (pid : Int) (name description : Bytes)
    (m : ProcessMonitor) : ProcessMonitor :=
  let events := if m.events.length = maxEvents then m.events.drop 1 else m.events
  { m with events := events ++
      [⟨timestamp, type, pid, snprintf commMax name, snprintf eventDescMax description⟩] }

/-- The answers of `time(NULL)` during one publish, by the event they stamp. -/
abbrev Stamps := EventType → Int → Int

/-- The first loop of `detect_changes`. -/
def detectCreated (time : Stamps) (m : ProcessMonitor) (proc : ProcessInfo) : ProcessMonitor :=
  match findIn m.processes.cells m.count proc.pid with
  | some _ => m
  | none => pushEvent (time .processCreated proc.pid) .processCreated proc.pid proc.name
      (text "Process created") m

/-- The second loop of `detect_changes`. -/
def detectTerminated (time : Stamps) (m : ProcessMonitor) (proc : ProcessInfo) : ProcessMonitor :=
  match findIn m.incoming.cells m.incomingCount proc.pid with
  | some _ => m
  | none => pushEvent (time .processTerminated proc.pid) .processTerminated proc.pid proc.name
      (text "Process terminated") m

/-- `detect_changes` -/
def detectChanges (time : Stamps) (m : ProcessMonitor) : ProcessMonitor :=
  let m := m.built.foldl (detectCreated time) m
  m.sample.foldl (detectTerminated time) m

/-- `km_process_monitor_publish` -/
def publish (time : Stamps) (m : ProcessMonitor) : ProcessMonitor :=
  let m := detectChanges time m
  { m with
    processes := m.incoming
    count := m.incomingCount
    capacity := m.incomingCapacity
    incoming := m.processes
    incomingCapacity := m.capacity
    incomingCount := 0 }

/-- `km_process_monitor_update` -/
def update (w : Sweep) (time : Stamps) (m : ProcessMonitor) : ProcessMonitor :=
  publish time (collect w m)

/-- `km_process_monitor_recent_events` -/
def ProcessMonitor.recentEvents (m : ProcessMonitor) (count : Nat) : List Event :=
  if m.events.length ≤ count then m.events else m.events.drop (m.events.length - count)

/-! ## What the main thread reads -/

/-- The monitor as `km_ui_draw` and `signal_selected` read it. -/
structure Snapshot where
  sample : List ProcessInfo
  events : List Event
  lastScanMs : ℚ
  deriving DecidableEq, Repr

def ProcessMonitor.visible (m : ProcessMonitor) : Snapshot :=
  ⟨m.sample, m.events, m.lastScanMs⟩

end KernelMonitor
