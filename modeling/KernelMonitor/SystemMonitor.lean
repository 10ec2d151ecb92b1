import KernelMonitor.ProcReader

/-! # The system monitor

Model of `src/system/system_monitor.c`. Counters are unsigned 64-bit and wrap as in
C; a percentage is a `double`, each of its operations rounded.
-/

namespace KernelMonitor

open Library

/-- `km_system_monitor`. The cores are `per_core_cpu_usage[0..per_core_count)`. -/
structure SystemMonitor where
  kernelVersion : Bytes
  cpuCount : Int
  uptime : Double
  cpuUsagePercent : Double
  perCoreCpuUsage : List Double
  perCoreCapacity : Nat
  prevTotalCpu : UInt64
  prevIdleCpu : UInt64
  loadAvg : LoadAverage
  memTotal : UInt64
  memUsed : UInt64
  memFree : UInt64
  memAvailable : UInt64
  memUsagePercent : Double
  swapTotal : UInt64
  swapUsed : UInt64
  swapFree : UInt64
  swapUsagePercent : Double
  deriving DecidableEq, Repr

def SystemMonitor.zero : SystemMonitor where
  kernelVersion := []
  cpuCount := 0
  uptime := 0
  cpuUsagePercent := 0
  perCoreCpuUsage := []
  perCoreCapacity := 0
  prevTotalCpu := 0
  prevIdleCpu := 0
  loadAvg := ⟨0, 0, 0⟩
  memTotal := 0
  memUsed := 0
  memFree := 0
  memAvailable := 0
  memUsagePercent := 0
  swapTotal := 0
  swapUsed := 0
  swapFree := 0
  swapUsagePercent := 0

/-- What the reads of one update come back with; a `realloc` of the core array is
    asked by the number of cores already there. Numbers are read in the locale that
    `setlocale` took from the environment. -/
structure SystemReads where
  version : Option Bytes
  uptime : Option Bytes
  stat : Option Bytes
  meminfo : Option Bytes
  loadavg : Option Bytes
  growCores : Nat → Bool
  numbers : NumberSyntax

def versionFormat : List Directive :=
  [.suppress (.str none), .space, .suppress (.str none), .space, .assign (.str (some 63))]

namespace SystemMonitor

/-- `km_system_monitor_update_system_info` -/
def updateSystemInfo (reads : SystemReads) (m : SystemMonitor) : Bool × SystemMonitor :=
  match reads.version with
  | none => (false, m)
  | some version =>
      let m := match sscanf versionFormat (cString version) with
        | [.str release] => { m with kernelVersion := release }
        | _ => { m with kernelVersion := [] }
      match reads.uptime with
      | none => (true, m)
      | some uptime =>
          (true, { m with uptime := (parseUptime reads.numbers (cString uptime) m.uptime).2 })

/-- `per_core_push`. A failed `realloc` drops the figure. -/
def perCorePush (grows : Nat → Bool) (m : SystemMonitor) (usage : Double) : SystemMonitor :=
  if m.perCoreCpuUsage.length = m.perCoreCapacity then
    if grows m.perCoreCpuUsage.length then
      { m with
        perCoreCpuUsage := m.perCoreCpuUsage ++ [usage]
        perCoreCapacity := grownCapacity 16 m.perCoreCapacity }
    else m
  else { m with perCoreCpuUsage := m.perCoreCpuUsage ++ [usage] }

end SystemMonitor

def CpuTimes.total (t : CpuTimes) : UInt64 :=
  t.user + t.nice + t.system + t.idle + t.iowait + t.irq + t.softirq

def CpuTimes.totalIdle (t : CpuTimes) : UInt64 := t.idle + t.iowait

/-- `100.0 * (double)part`: whole numbers, of which the first 53 binary digits stay. -/
def hundredfold (part : UInt64) : ℕ := round53 (100 * round53 part.toNat : ℕ)

/-- `100.0 * (double)part / (double)whole` -/
def percentOf (part whole : UInt64) : Double :=
  .nearest false (hundredfold part / round53 whole.toNat)

/-- The subtraction is in C's unsigned arithmetic. -/
def busyPercent (total idle : UInt64) : Double := percentOf (total - idle) total

namespace SystemMonitor

/-- The share of the growth since the previous reading that was not idle time. -/
def cpuUsage (m : SystemMonitor) (times : CpuTimes) : Double :=
  if 0 < m.prevTotalCpu then
    let totalDiff := times.total - m.prevTotalCpu
    let idleDiff := times.totalIdle - m.prevIdleCpu
    if 0 < totalDiff then busyPercent totalDiff idleDiff else 0
  else 0

/-- The loop over the per-core lines; it ends at the first line that is none. -/
def readCores (grows : Nat → Bool) : List Bytes → SystemMonitor → SystemMonitor
  | [], m => m
  | line :: rest, m =>
      if line.take 3 ≠ text "cpu" then m
      else
        match parseCpuLine line with
        | none => readCores grows rest m
        | some times =>
            if 0 < times.total then
              readCores grows rest (m.perCorePush grows (busyPercent times.total times.totalIdle))
            else readCores grows rest m

/-- `km_system_monitor_update_cpu_stats` -/
def updateCpuStats (reads : SystemReads) (m : SystemMonitor) : Bool × SystemMonitor :=
  match reads.stat with
  | none => (false, m)
  | some stat =>
      match readLine (cString stat) 512 with
      | none => (false, m)
      | some (line, cursor) =>
          match parseCpuLine line with
          | none => (false, m)
          | some times =>
              let m := { m with
                cpuUsagePercent := m.cpuUsage times
                prevTotalCpu := times.total
                prevIdleCpu := times.totalIdle
                perCoreCpuUsage := [] }
              (true, readCores reads.growCores (readLines cursor 512) m)

/-- `km_system_monitor_update_memory_stats` -/
def updateMemoryStats (reads : SystemReads) (m : SystemMonitor) : Bool × SystemMonitor :=
  match reads.meminfo with
  | none => (false, m)
  | some meminfo =>
      let info := parseMeminfo (cString meminfo)
      let memTotal := info.memTotal * 1024
      let memFree := info.memFree * 1024
      let memUsed := memTotal - memFree - info.buffers * 1024 - info.cached * 1024
      let swapTotal := info.swapTotal * 1024
      let swapFree := info.swapFree * 1024
      let swapUsed := swapTotal - swapFree
      (true, { m with
        memTotal := memTotal
        memFree := memFree
        memAvailable := info.memAvailable * 1024
        memUsed := memUsed
        swapTotal := swapTotal
        swapFree := swapFree
        swapUsed := swapUsed
        memUsagePercent :=
          if 0 < memTotal then percentOf memUsed memTotal else m.memUsagePercent
        swapUsagePercent := if 0 < swapTotal then percentOf swapUsed swapTotal else 0 })

/-- `km_system_monitor_update_load_average` -/
def updateLoadAverage (reads : SystemReads) (m : SystemMonitor) : Bool × SystemMonitor :=
  match reads.loadavg with
  | none => (false, m)
  | some loadavg =>
      let (parsed, loadAvg) := parseLoadavg reads.numbers (cString loadavg) m.loadAvg
      (parsed, { m with loadAvg := loadAvg })

/-- `km_system_monitor_update`: every part is tried, whatever the others return. -/
def update (reads : SystemReads) (m : SystemMonitor) : Bool × SystemMonitor :=
  let (infoOk, m) := m.updateSystemInfo reads
  let (cpuOk, m) := m.updateCpuStats reads
  let (memoryOk, m) := m.updateMemoryStats reads
  let (loadOk, m) := m.updateLoadAverage reads
  (infoOk && cpuOk && memoryOk && loadOk, m)

/-- `km_system_monitor_init` -/
def init (cpuCount : Int) (reads : SystemReads) : SystemMonitor :=
  (({ zero with cpuCount := cpuCount } : SystemMonitor).updateCpuStats reads).2

end SystemMonitor

end KernelMonitor
