import KernelMonitor.SampleOrder

/-! # The sweep without its buffers

A sweep fills recycled slots in place, abandons a slot when a read fails, grows by
doubling and swaps two buffers. The reference below has no buffer: a sample is a
list made from this sweep's reads and, for the rates, from the sample before it.
-/

namespace KernelMonitor

open Library

/-! ## Reference -/

def refPages (statm : Option Bytes) : UInt64 × UInt64 :=
  match statm.bind fun buf => parseProcStatm (cString buf) with
  | none => (0, 0)
  | some (size, resident, _) => (size, resident)

def refCmdline (cmdline : Option Bytes) (name : Bytes) : Bytes :=
  match readPidCmdline cmdline with
  | some (c :: rest) => snprintf cmdlineMax (c :: rest)
  | _ => snprintf cmdlineMax (text "[" ++ name ++ text "]")

/-- What the files of one PID say, without rates. -/
def refReads (c : Constants) (files : PidFiles) (pid : Int) : Option ProcessInfo :=
  match files.stat.map fun buf => parseProcStat (cString buf) commMax with
  | some (some name, some st) => some {
      pid := pid
      ppid := toInt32 st.ppid
      uid := (files.status.bind fun buf => parseStatusUid (cString buf)).getD 0
      name := name
      state := st.state
      priority := toInt32 st.priority
      nice := toInt32 st.nice
      numThreads := st.numThreads
      utime := st.utime
      stime := st.stime
      vmSize := (refPages files.statm).1 * UInt64.ofInt c.pageSize
      vmRss := (refPages files.statm).2 * UInt64.ofInt c.pageSize
      cpuPercent := 0
      cmdline := refCmdline files.cmdline name
      exePath := (files.exe.map fun path => snprintf exePathMax (cString path)).getD []
      fdCount := if 0 ≤ countFds files.fd then countFds files.fd else 0
      startTime := c.bootTime + toTime ((st.utime + st.stime) / UInt64.ofInt c.clockTicks)
      pgrp := toInt32 st.pgrp
      session := toInt32 st.session
      ttyNr := st.ttyNr
      tpgid := toInt32 st.tpgid
      minflt := st.minflt
      majflt := st.majflt
      minfltRate := 0
      majfltRate := 0 }
  | _ => none

/-- CPU time since `before` over the interval; zero for a new process, for a
    counter that went down and without an interval. -/
def refCpuPercent (c : Constants) (total : UInt64) (before : Option ProcessInfo) (seconds : ℚ) :
    ℚ :=
  match before with
  | none => 0
  | some p =>
      if total < p.utime + p.stime ∨ seconds ≤ 0 then 0
      else 100 * ((total - (p.utime + p.stime)).toNat : ℚ) / (c.clockTicks * seconds)

def refFaultRate (counter : UInt64) (before : Option UInt64) (seconds : ℚ) : ℚ :=
  match before with
  | none => 0
  | some was => if seconds ≤ 0 ∨ counter < was then 0 else ((counter - was).toNat : ℚ) / seconds

/-- The three rates of an entry: `before` is the same PID's entry in the previous
    sample. -/
def refRates (c : Constants) (before : Option ProcessInfo) (seconds : ℚ) (info : ProcessInfo) :
    ProcessInfo :=
  { info with
    cpuPercent := refCpuPercent c (info.utime + info.stime) before seconds
    minfltRate := refFaultRate info.minflt (before.map ProcessInfo.minflt) seconds
    majfltRate := refFaultRate info.majflt (before.map ProcessInfo.majflt) seconds }

/-- The last published sample and when its sweep began. -/
structure RefState where
  sample : List ProcessInfo
  last : Option Timespec

def RefState.start : RefState := ⟨[], none⟩

/-- The PIDs of a directory pass in ascending order; none without a directory. -/
def Sweep.ascending (w : Sweep) : List Int :=
  match w.dir with
  | none => []
  | some entries => qsort comparePid (listed entries)

def refUpdate (c : Constants) (r : RefState) (w : Sweep) : RefState :=
  let seconds := match r.last with
    | none => 0
    | some last => clockDiffSeconds last w.now
  { sample := w.ascending.filterMap fun pid =>
      (refReads c (w.files pid) pid).map
        (refRates c (r.sample.find? fun p => p.pid = pid) seconds)
    last := some w.now }

def refRun (c : Constants) (sweeps : List Sweep) : RefState := sweeps.foldl (refUpdate c) .start

/-! ## One entry -/

theorem parseProcStat_named {content : Bytes} {commSize : Nat} {st : ProcStat}
    (parsed : (parseProcStat content commSize).2 = some st) :
    ∃ name, (parseProcStat content commSize).1 = some name := by
  unfold parseProcStat at *
  split at parsed
  · split at parsed
    · cases parsed
    · rename_i outside
      exact ⟨_, by rw [if_neg outside]⟩
  · cases parsed

section Helpers

variable {c : Constants} {info : ProcessInfo}

theorem readMemory_eq {statm : Option Bytes} (size : info.vmSize = 0) (rss : info.vmRss = 0) :
    readMemory c statm info = { info with
      vmSize := (refPages statm).1 * UInt64.ofInt c.pageSize
      vmRss := (refPages statm).2 * UInt64.ofInt c.pageSize } := by
  unfold readMemory refPages
  cases statm.bind fun buf => parseProcStatm (cString buf) with
  | none =>
      cases info
      simp_all only [UInt64.zero_mul]
  | some pages => rfl

theorem readUid_eq {status : Option Bytes} (uid : info.uid = 0) :
    readUid status info = { info with
      uid := (status.bind fun buf => parseStatusUid (cString buf)).getD 0 } := by
  unfold readUid
  cases status.bind fun buf => parseStatusUid (cString buf) with
  | none =>
      rw [Option.getD_none, ← uid]
  | some uid => rfl

theorem readCmdline_eq {cmdline : Option Bytes} :
    readCmdline cmdline info = { info with cmdline := refCmdline cmdline info.name } := by
  unfold readCmdline refCmdline
  split <;> simp_all

theorem readExe_eq {exe : Option Bytes} (path : info.exePath = []) :
    readExe exe info = { info with
      exePath := (exe.map fun path => snprintf exePathMax (cString path)).getD [] } := by
  unfold readExe
  cases exe with
  | none =>
      rw [Option.map_none, Option.getD_none, ← path]
  | some path => rfl

/-- Both rates, as the loop body leaves them in a freshly read entry. -/
theorem withRates_eq {m : ProcessMonitor} {seconds : ℚ} {pid : Int} (minRate : info.minfltRate = 0)
    (majRate : info.majfltRate = 0) :
    m.withRates seconds pid info = refRates m.constants (m.find pid) seconds info := by
  unfold ProcessMonitor.withRates refRates
  cases m.find pid with
  | none =>
      cases info
      simp_all only [refCpuPercent, Option.map_none, refFaultRate]
  | some previous =>
      have ticks := m.constants.clockTicks_pos
      simp only [calculateFaultRates, calculateCpuUsage, refCpuPercent, Option.map_some,
        refFaultRate, faultRate]
      by_cases paused : seconds ≤ 0
      · have stopped : ¬ (0 < seconds ∧ 0 < m.constants.clockTicks) := fun h => by linarith [h.1]
        simp only [paused, stopped, or_true, true_or, if_true, if_false]
        split <;> rfl
      · have running : 0 < seconds ∧ 0 < m.constants.clockTicks := ⟨by linarith, ticks⟩
        simp only [paused, running, or_false, false_or, if_false, and_self, if_true]
        by_cases lower : info.utime + info.stime < previous.utime + previous.stime
        · simp only [lower, if_true, ← UInt64.not_lt, ite_not]
        · simp only [lower, if_false, ← UInt64.not_lt, ite_not]

end Helpers

/-- A successful read leaves in the slot exactly what the files say. -/
theorem readProcessInfo_eq (c : Constants) (pid : Int) (files : PidFiles) :
    (if (readProcessInfo c pid files .zero).1 then some (readProcessInfo c pid files .zero).2
      else none) = refReads c files pid := by
  unfold readProcessInfo refReads
  cases files.stat with
  | none => rfl
  | some buf =>
      simp only [Option.map_some]
      cases parsed : (parseProcStat (cString buf) commMax).2 with
      | none =>
          rw [← Prod.mk.eta (p := parseProcStat (cString buf) commMax), parsed]
          simp
      | some st =>
          obtain ⟨name, named⟩ := parseProcStat_named parsed
          rw [← Prod.mk.eta (p := parseProcStat (cString buf) commMax), parsed, named]
          simp only [if_true]
          rw [readMemory_eq rfl rfl, readUid_eq rfl, readCmdline_eq, readExe_eq rfl]
          rfl

theorem refReads_rates {c : Constants} {files : PidFiles} {pid : Int} {info : ProcessInfo}
    (read : refReads c files pid = some info) : info.minfltRate = 0 ∧ info.majfltRate = 0 := by
  unfold refReads at read
  split at read
  · cases read
    exact ⟨rfl, rfl⟩
  · cases read

theorem entry_eq_ref (m : ProcessMonitor) (w : Sweep) (seconds : ℚ) (pid : Int) :
    m.entry w seconds pid =
      (refReads m.constants (w.files pid) pid).map (refRates m.constants (m.find pid) seconds) := by
  have rates info (made : refReads m.constants (w.files pid) pid = some info) :=
    refReads_rates made
  rw [← readProcessInfo_eq] at rates ⊢
  unfold ProcessMonitor.entry
  generalize readProcessInfo m.constants pid (w.files pid) .zero = result at rates ⊢
  obtain ⟨read, info⟩ := result
  cases read with
  | false => rfl
  | true =>
      obtain ⟨minRate, majRate⟩ := rates info rfl
      exact congrArg some (withRates_eq minRate majRate)

/-- The lookup the rates use is a search of the sample as a list. -/
theorem ProcessMonitor.Valid.find_eq_find? {m : ProcessMonitor} (valid : m.Valid) (pid : Int) :
    m.find pid = m.sample.find? fun p => p.pid = pid := by
  cases found : m.sample.find? fun p => p.pid = pid with
  | none =>
      rw [valid.find_none_iff, List.mem_map]
      intro known
      obtain ⟨info, member, same⟩ := known
      exact absurd same (by simpa using List.find?_eq_none.mp found info member)
  | some info =>
      exact valid.find_iff.mpr
        ⟨List.mem_of_find?_eq_some found, by simpa using List.find?_some found⟩

/-! ## Runs -/

/-- No allocation fails during the sweep. -/
structure Sweep.Allocates (w : Sweep) : Prop where
  pids : ∀ pid, w.growPids pid = true
  slots : ∀ pid, (w.growIncoming pid).isSome

/-- The files of a PID give it an entry. -/
def PidFiles.parses (files : PidFiles) : Bool :=
  (files.stat.bind fun buf => (parseProcStat (cString buf) commMax).2).isSome

theorem refReads_isSome (c : Constants) (files : PidFiles) (pid : Int) :
    (refReads c files pid).isSome = files.parses := by
  unfold refReads PidFiles.parses
  cases files.stat with
  | none => rfl
  | some buf =>
      simp only [Option.map_some, Option.bind_some]
      cases parsed : (parseProcStat (cString buf) commMax).2 with
      | none =>
          rw [← Prod.mk.eta (p := parseProcStat (cString buf) commMax), parsed]
          simp
      | some st =>
          obtain ⟨name, named⟩ := parseProcStat_named parsed
          rw [← Prod.mk.eta (p := parseProcStat (cString buf) commMax), parsed, named]
          rfl

theorem sweptPids_all {w : Sweep} {m : ProcessMonitor} (lawful : w.Lawful m)
    (allocates : w.Allocates) : sweptPids w m = w.ascending := by
  have every : sweptPids w m = (listPids w.dir w.growPids m.pids).2.items :=
    reached_all (fun pid _ => allocates.slots pid) _
  rw [every, Sweep.ascending]
  cases pass : w.dir with
  | none => rfl
  | some entries =>
      exact listPids_all (lawful.listing _ pass) (refused_nil (fun pid _ => allocates.pids pid) _)

theorem mem_ascending {w : Sweep} {pid : Int} :
    pid ∈ w.ascending ↔ ∃ entries, w.dir = some entries ∧ pid ∈ listed entries := by
  unfold Sweep.ascending
  cases w.dir with
  | none => simp
  | some entries => simp [mem_qsort]

/-- What the monitor and the reference agree on between updates. -/
structure Matches (c : Constants) (m : ProcessMonitor) (r : RefState) : Prop where
  constants : m.constants = c
  sample : m.sample = r.sample
  last : r.last = if m.haveLastSample then some m.lastSample else none

theorem update_matches {c : Constants} {m : ProcessMonitor} {r : RefState} {tick : Tick}
    (valid : m.Valid) (lawful : tick.sweep.Lawful m) (allocates : tick.sweep.Allocates)
    (same : Matches c m r) :
    Matches c (update tick.sweep tick.time m) (refUpdate c r tick.sweep) := by
  obtain ⟨rfl, sample, last⟩ := same
  obtain ⟨_, built⟩ := collect_built tick.sweep valid.scratch.cells
  obtain ⟨clock, stamped⟩ := collect_clock tick.sweep m
  obtain ⟨_, _, _, _, constants⟩ := collect_frame tick.sweep m
  obtain ⟨events, swapped⟩ := publish_swap tick.time (collect tick.sweep m)
  refine ⟨?_, ?_, ?_⟩
  · rw [update, swapped]
    exact constants
  · have interval : sweepSeconds tick.sweep m = match r.last with
        | none => 0
        | some last => clockDiffSeconds last tick.sweep.now := by
      rw [last, sweepSeconds, collectBegin]
      cases m.haveLastSample <;> rfl
    rw [update, publish_sample, built, sweptPids_all lawful allocates, refUpdate, interval]
    refine List.filterMap_congr fun pid _ => ?_
    rw [entry_eq_ref, valid.find_eq_find?, sample]
  · rw [update, swapped]
    simp only [clock, stamped, if_true, refUpdate]

theorem run_matches {host : Host} {trace : List Tick} {m : ProcessMonitor}
    (history : (updateSystem host fun w _ => w.Allocates).Trace trace m) :
    Matches host.constants m (refRun host.constants (trace.map Tick.sweep)) := by
  refine LabelledSystem.Trace.induct (P := fun trace m =>
    Matches host.constants m (refRun host.constants (trace.map Tick.sweep))) ?_ ?_ history
  · intro m start
    subst start
    exact ⟨rfl, rfl, rfl⟩
  · intro trace m tick next earlier same step
    obtain ⟨lawful, allocates, rfl⟩ := step
    rw [refRun, List.map_append, List.foldl_append]
    exact update_matches (updates_valid earlier) lawful allocates same

theorem refReads_pid {c : Constants} {files : PidFiles} {pid : Int} {info : ProcessInfo}
    (read : refReads c files pid = some info) : info.pid = pid := by
  unfold refReads at read
  split at read
  · cases read
    rfl
  · cases read

theorem refRates_pid {c : Constants} {before : Option ProcessInfo} {seconds : ℚ}
    {info : ProcessInfo} : (refRates c before seconds info).pid = info.pid := rfl

/-- Which PIDs the reference has entries for. -/
theorem mem_refUpdate {c : Constants} {r : RefState} {w : Sweep} {pid : Int} :
    pid ∈ (refUpdate c r w).sample.map ProcessInfo.pid ↔
      pid ∈ w.ascending ∧ (w.files pid).parses := by
  simp only [refUpdate, List.mem_map, List.mem_filterMap, Option.map_eq_some_iff]
  constructor
  · intro known
    obtain ⟨_, ⟨other, member, info, read, rfl⟩, rfl⟩ := known
    rw [refRates_pid, refReads_pid read]
    exact ⟨member, by rw [← refReads_isSome c _ other, read]; rfl⟩
  · intro known
    obtain ⟨member, parses⟩ := known
    rw [← refReads_isSome c _ pid, Option.isSome_iff_exists] at parses
    obtain ⟨info, read⟩ := parses
    exact ⟨_, ⟨pid, member, info, read, rfl⟩, refRates_pid.trans (refReads_pid read)⟩

/-- Every update publishes what the reference computes, and that is one entry for
    each listed PID whose `stat` could be read and parsed, in ascending order. -/
theorem updates_match_reference {host : Host} {trace : List Tick} {m : ProcessMonitor}
    (history : (updateSystem host fun w _ => w.Allocates).Trace trace m) :
    m.sample = (refRun host.constants (trace.map Tick.sweep)).sample ∧
      (m.sample.map ProcessInfo.pid).Pairwise (· < ·) ∧
      ∀ before tick, trace = before ++ [tick] → ∀ pid,
        pid ∈ m.sample.map ProcessInfo.pid ↔
          (∃ entries, tick.sweep.dir = some entries ∧ pid ∈ listed entries) ∧
            (tick.sweep.files pid).parses := by
  have sample := (run_matches history).sample
  refine ⟨sample, keySorted_iff_map.mp (updates_valid history).sampleSorted, ?_⟩
  intro before tick whole pid
  subst whole
  rw [sample, refRun, List.map_append, List.foldl_append]
  rw [List.map_singleton, List.foldl_cons, List.foldl_nil, mem_refUpdate, mem_ascending]

/-! The small machine updated twice; the second sweep recycles a block that still
holds nothing of its own. -/

def exampleSecond : Sweep :=
  { exampleSweep with now := ⟨12, 0⟩, growIncoming := fun _ => some ⟨2, fun _ => .zero⟩ }

theorem exampleSecond_lawful :
    exampleSecond.Lawful (update exampleSweep exampleStamps (.init exampleHost)) where
  listing := exampleSweep_lawful.listing
  fresh := by
    rintro pid _ ⟨rfl⟩
    decide +kernel

theorem example_updates :
    (updateSystem exampleHost fun w _ => w.Allocates).Trace
      ([] ++ [⟨exampleSweep, exampleStamps⟩] ++ [⟨exampleSecond, exampleStamps⟩])
      (update exampleSecond exampleStamps
        (update exampleSweep exampleStamps (.init exampleHost))) :=
  ⟨_, rfl, .snoc (.snoc (.refl _) ⟨exampleSweep_lawful, ⟨fun _ => rfl, fun _ => rfl⟩, rfl⟩)
    ⟨exampleSecond_lawful, ⟨fun _ => rfl, fun _ => rfl⟩, rfl⟩⟩

theorem updates_match_reference_example :
    (update exampleSecond exampleStamps
      (update exampleSweep exampleStamps (.init exampleHost))).sample =
        (refRun exampleHost.constants [exampleSweep, exampleSecond]).sample ∧
    (refRun exampleHost.constants [exampleSweep, exampleSecond]).sample.map ProcessInfo.pid =
      [3, 12] :=
  ⟨(updates_match_reference example_updates).1, by decide +kernel⟩

end KernelMonitor
