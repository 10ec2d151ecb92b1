import KernelMonitor.EventLog
import KernelMonitor.SweepReference

/-! # Who holds a PID

A process is one PID from its start to its end. The kernel tells when it started in
field 22 of `stat`, which the scan of the line stops short of. So two processes that
follow each other under one PID are the same to the monitor, and its `start_time`
comes from somewhere else.
-/

namespace KernelMonitor

open Library

/-! ## What the kernel says -/

/-- From the state on, which is field 3, up to field 22. -/
def startTimeFormat : List Directive :=
  (List.replicate 19 [.space, .suppress (.str none)]).flatten ++ [.space, .assign .ulong]

/-- Field 22 of a `stat` line, the ticks from boot to the start of the process. Nothing
    in the program reads it. -/
def kernelStartTime (content : Bytes) : Option UInt64 :=
  (strrchr content 41).bind fun closeParen =>
    match sscanf startTimeFormat (content.drop (closeParen + 1)) with
    | [.unsigned ticks] => some ticks
    | _ => none

/-- When the process whose files a sweep reads was started. -/
def Sweep.startOf (w : Sweep) (pid : Int) : Option UInt64 :=
  (w.files pid).stat.bind fun buf => kernelStartTime (cString buf)

def PidFiles.procStat (files : PidFiles) : Option ProcStat :=
  files.stat.bind fun buf => (parseProcStat (cString buf) commMax).2

/-- The processor time in ticks a sweep reads for a PID. -/
def Sweep.cpuTicks (w : Sweep) (pid : Int) : Option UInt64 :=
  (w.files pid).procStat.map fun st => st.utime + st.stime

/-! ## An entry and the files it was read from -/

theorem refReads_stat {c : Constants} {files : PidFiles} {pid : Int} {info : ProcessInfo}
    (read : refReads c files pid = some info) :
    ∃ st, files.procStat = some st ∧ info.utime = st.utime ∧ info.stime = st.stime ∧
      info.startTime =
        c.bootTime + toTime ((st.utime + st.stime) / UInt64.ofInt c.clockTicks) := by
  unfold refReads at read
  split at read
  · rename_i name st parsed
    obtain ⟨buf, file, parsed⟩ := Option.map_eq_some_iff.mp parsed
    cases read
    exact ⟨st, by rw [PidFiles.procStat, file, Option.bind_some, parsed], rfl, rfl, rfl⟩
  · cases read

/-- An entry of an update's sample: read in this sweep, its rates taken against the
    entry of the same PID in the sample before. -/
theorem published_entry {tick : Tick} {m : ProcessMonitor} (valid : m.Valid) {info : ProcessInfo}
    (member : info ∈ (update tick.sweep tick.time m).sample) :
    ∃ read, refReads m.constants (tick.sweep.files info.pid) info.pid = some read ∧
      info = refRates m.constants (m.find info.pid) (sweepSeconds tick.sweep m) read := by
  obtain ⟨_, built⟩ := collect_built tick.sweep valid.scratch.cells
  rw [update, publish_sample, built] at member
  obtain ⟨pid, _, made⟩ := List.mem_filterMap.mp member
  obtain rfl := entry_pid made
  rw [entry_eq_ref] at made
  obtain ⟨read, reads, rates⟩ := Option.map_eq_some_iff.mp made
  exact ⟨read, reads, rates.symm⟩

theorem update_constants (tick : Tick) (m : ProcessMonitor) :
    (update tick.sweep tick.time m).constants = m.constants := by
  obtain ⟨_, swapped⟩ := publish_swap tick.time (collect tick.sweep m)
  obtain ⟨_, _, _, _, constants⟩ := collect_frame tick.sweep m
  rw [update, swapped]
  exact constants

theorem updates_constants {host : Host} {Allowed : Sweep → ProcessMonitor → Prop}
    {trace : List Tick} {m : ProcessMonitor}
    (history : (updateSystem host Allowed).Trace trace m) : m.constants = host.constants := by
  have reachable : (updateSystem host Allowed).Reachable m := ⟨trace, history⟩
  apply reachable.invariant (P := fun m => m.constants = host.constants)
  · intro m start
    subst start
    rfl
  · intro m tick next step same
    obtain ⟨_, _, rfl⟩ := step
    exact (update_constants tick m).trans same

/-! ## The start time -/

/-- The date of a start, from its distance to boot in ticks. -/
def startTimeOf (c : Constants) (ticks : UInt64) : Int :=
  c.bootTime + toTime (ticks / UInt64.ofInt c.clockTicks)

theorem toTime_injective : Function.Injective toTime := by
  intro a b same
  have inA := a.toNat_lt
  have inB := b.toNat_lt
  have wrapped := congrArg (· % (2 ^ 64 : Int)) same
  have rest n : toTime n % 2 ^ 64 = (n.toNat : Int) % 2 ^ 64 := Int.bmod_emod
  simp only [rest] at wrapped
  exact UInt64.toNat_inj.mp (by omega)

/-- What the last sample of a run says about processor time and start time. -/
theorem reported_times {host : Host} {Allowed : Sweep → ProcessMonitor → Prop}
    {before : List Tick} {tick : Tick} {state : ProcessMonitor}
    (history : (updateSystem host Allowed).Trace (before ++ [tick]) state) {info : ProcessInfo}
    (member : info ∈ state.sample) :
    tick.sweep.cpuTicks info.pid = some (info.utime + info.stime) ∧
      info.startTime = startTimeOf host.constants (info.utime + info.stime) := by
  obtain ⟨start, initial, run⟩ := history
  obtain ⟨old, before, _, _, rfl⟩ := run.last
  have earlier : (updateSystem host Allowed).Trace _ old := ⟨start, initial, before⟩
  obtain ⟨read, reads, rates⟩ := published_entry (updates_valid earlier) member
  obtain ⟨st, parsed, user, system, computed⟩ := refReads_stat reads
  have utime : info.utime = st.utime := by rw [rates, ← user]; rfl
  have stime : info.stime = st.stime := by rw [rates, ← system]; rfl
  have startTime : info.startTime = read.startTime := by rw [rates]; rfl
  rw [utime, stime]
  refine ⟨by rw [Sweep.cpuTicks, parsed, Option.map_some], ?_⟩
  rw [startTime, computed, updates_constants earlier, startTimeOf]

/-- What a sweep reads of a PID's processor time comes to as many whole seconds as its
    process was started after boot. -/
def Sweep.UsedAsStarted (w : Sweep) (c : Constants) (pid : Int) : Prop :=
  ∀ used started, w.cpuTicks pid = some used → w.startOf pid = some started →
    used / UInt64.ofInt c.clockTicks = started / UInt64.ofInt c.clockTicks

/-- A process is reported to have started when it did exactly where that holds of the
    last sweep. In a run whose sweeps all read it so, every sample is right. -/
theorem start_time_reported_iff {host : Host} {trace : List Tick} {m : ProcessMonitor} {pid : Int}
    {started : UInt64} (history : (updateSystem host fun _ _ => True).Trace trace m)
    (alive : ∀ tick ∈ trace, tick.sweep.startOf pid = some started) :
    (∀ before tick, trace = before ++ [tick] → ∀ info ∈ m.sample, info.pid = pid →
      (info.startTime = startTimeOf host.constants started ↔
        tick.sweep.UsedAsStarted host.constants pid)) ∧
      ((∀ tick ∈ trace, tick.sweep.UsedAsStarted host.constants pid) →
        ∀ info ∈ m.sample, info.pid = pid →
          info.startTime = startTimeOf host.constants started) := by
  have one : ∀ before tick, trace = before ++ [tick] → ∀ info ∈ m.sample, info.pid = pid →
      (info.startTime = startTimeOf host.constants started ↔
        tick.sweep.UsedAsStarted host.constants pid) := by
    intro before tick whole info member same
    subst whole same
    obtain ⟨read, reported⟩ := reported_times history member
    rw [reported, startTimeOf, startTimeOf, add_right_inj, toTime_injective.eq_iff,
      Sweep.UsedAsStarted, read, alive tick (by simp)]
    simp
  refine ⟨one, fun condition info member same => ?_⟩
  cases trace using List.reverseRecOn with
  | nil =>
      obtain ⟨_, rfl, run⟩ := history
      obtain rfl := run.nil
      cases member
  | append_singleton before tick =>
      exact (one before tick rfl info member same).mpr (condition tick (by simp))

/-! A process that has used 6 seconds by the second sweep. -/

def exampleWorked : Sweep :=
  { exampleSecond with
    files := fun _ => { unreadable with
      stat := some (text "3 (sh) S 1 3 3 34816 3 0 20 0 1 0 640 2 0 0 20 0 1 0 5 0") } }

def exampleFirst : ProcessMonitor := update exampleSweep exampleStamps (.init exampleHost)

theorem example_first :
    (updateSystem exampleHost fun _ _ => True).Trace [⟨exampleSweep, exampleStamps⟩]
      exampleFirst :=
  ⟨_, rfl, .single ⟨exampleSweep_lawful, trivial, rfl⟩⟩

theorem exampleWorked_lawful : exampleWorked.Lawful exampleFirst :=
  ⟨exampleSecond_lawful.listing, exampleSecond_lawful.fresh⟩

theorem start_time_moves :
    (updateSystem exampleHost fun _ _ => True).Trace
        ([⟨exampleSweep, exampleStamps⟩] ++ [⟨exampleWorked, exampleStamps⟩])
        (update exampleWorked exampleStamps exampleFirst) ∧
      exampleSweep.startOf 3 = some 5 ∧ exampleWorked.startOf 3 = some 5 ∧
      startTimeOf exampleHost.constants 5 = 950 ∧
      (exampleFirst.find 3).map ProcessInfo.startTime = some 950 ∧
      ((update exampleWorked exampleStamps exampleFirst).find 3).map ProcessInfo.startTime =
        some 956 :=
  ⟨example_first.extend ⟨exampleWorked_lawful, trivial, rfl⟩, by decide +kernel, by decide +kernel,
    by decide +kernel, by decide +kernel, by decide +kernel⟩

theorem start_time_reported_example :
    (exampleFirst.find 3).map ProcessInfo.startTime = some 950 := by
  have started : exampleSweep.startOf 3 = some 5 := by decide +kernel
  have used : exampleSweep.cpuTicks 3 = some 42 := by decide +kernel
  obtain ⟨info, found⟩ := Option.isSome_iff_exists.mp
    (by decide +kernel : (exampleFirst.find 3).isSome)
  obtain ⟨member, same⟩ := ProcessMonitor.find_sound found
  have alive : ∀ tick ∈ [(⟨exampleSweep, exampleStamps⟩ : Tick)],
      tick.sweep.startOf 3 = some 5 := by
    intro tick member
    obtain rfl := List.mem_singleton.mp member
    exact started
  have asStarted : exampleSweep.UsedAsStarted exampleHost.constants 3 := by
    intro ticks began readTicks readStart
    obtain rfl := Option.some.inj (used.symm.trans readTicks)
    obtain rfl := Option.some.inj (started.symm.trans readStart)
    decide +kernel
  have reported := (start_time_reported_iff example_first alive).1 [] _ rfl info member same
  rw [found, Option.map_some, reported.mpr asStarted]
  rfl

/-! ## One PID, two processes -/

/-- The monitor knows a process by its PID. Of a PID in two samples in a row no event is
    logged, whoever held it, and each rate is zero where its own counter is below that
    of the entry before or no time has passed, and otherwise comes from the difference.
    Of a PID that was not in the sample before, the creation is logged and every rate is
    zero; of one that is not in the next, the termination is logged. -/
theorem pid_is_identity {host : Host} {trace : List Tick} {m : ProcessMonitor} {tick : Tick}
    (history : (updateSystem host fun _ _ => True).Trace trace m)
    (lawful : tick.sweep.Lawful m) (pid : Int) :
    let next := update tick.sweep tick.time m
    let seconds := sweepSeconds tick.sweep m
    let hz := host.constants.clockTicks
    ∃ events, eventHistory (.init host) (trace ++ [tick]) =
        eventHistory (.init host) trace ++ events ∧
      (∀ old ∈ m.sample, old.pid = pid → ∀ info ∈ next.sample, info.pid = pid →
        typesOf pid events = [] ∧
        info.cpuPercent =
          (if info.utime + info.stime < old.utime + old.stime ∨ seconds ≤ 0 then 0
          else 100 * ((info.utime + info.stime - (old.utime + old.stime)).toNat : ℚ) /
            (hz * seconds)) ∧
        info.minfltRate =
          (if seconds ≤ 0 ∨ info.minflt < old.minflt then 0
          else ((info.minflt - old.minflt).toNat : ℚ) / seconds) ∧
        info.majfltRate =
          (if seconds ≤ 0 ∨ info.majflt < old.majflt then 0
          else ((info.majflt - old.majflt).toNat : ℚ) / seconds)) ∧
      (pid ∉ m.sample.map ProcessInfo.pid → ∀ info ∈ next.sample, info.pid = pid →
        typesOf pid events = [.processCreated] ∧
        info.cpuPercent = 0 ∧ info.minfltRate = 0 ∧ info.majfltRate = 0) ∧
      (pid ∈ m.sample.map ProcessInfo.pid → pid ∉ next.sample.map ProcessInfo.pid →
        typesOf pid events = [.processTerminated]) := by
  intro next seconds hz
  have valid := updates_valid history
  have types := typesOf_changes tick.time (collect_valid valid lawful) pid
  rw [collect_sample, ← publish_sample tick.time] at types
  refine ⟨changes tick.time (collect tick.sweep m), eventHistory_snoc history tick, ?_, ?_, ?_⟩
  · intro old was samePid info is same
    obtain ⟨read, _, rates⟩ := published_entry valid is
    have before : m.find info.pid = some old := valid.find_iff.mpr ⟨was, samePid.trans same.symm⟩
    rw [before, updates_constants history] at rates
    refine ⟨?_, ?_⟩
    · have wasThere : pid ∈ m.sample.map ProcessInfo.pid := samePid ▸ List.mem_map_of_mem was
      have isThere : pid ∈ next.sample.map ProcessInfo.pid := same ▸ List.mem_map_of_mem is
      rw [types, turn, if_neg fun h => h.2 wasThere, if_neg fun h => h.2 isThere]
    · rw [rates]
      exact ⟨rfl, rfl, rfl⟩
  · intro wasNot info is same
    obtain ⟨read, _, rates⟩ := published_entry valid is
    have before : m.find info.pid = none := valid.find_none_iff.mpr (same ▸ wasNot)
    have isThere : pid ∈ next.sample.map ProcessInfo.pid := same ▸ List.mem_map_of_mem is
    refine ⟨by rw [types, turn, if_pos ⟨isThere, wasNot⟩], ?_⟩
    rw [rates, before]
    exact ⟨rfl, rfl, rfl⟩
  · intro was isNot
    rw [types, turn, if_neg fun h => isNot h.1, if_pos ⟨was, isNot⟩]

/-! PID 3 with another process behind it, started at tick 900 and busy since. -/

def exampleReused : Sweep :=
  { exampleSecond with
    files := fun _ => { unreadable with
      stat := some (text "3 (vi) S 1 3 3 34816 3 0 50 0 9 0 640 2 0 0 20 0 1 0 900 0") } }

theorem exampleReused_lawful : exampleReused.Lawful exampleFirst :=
  ⟨exampleSecond_lawful.listing, exampleSecond_lawful.fresh⟩

theorem reuse_unnoticed :
    (updateSystem exampleHost fun _ _ => True).Trace
        ([⟨exampleSweep, exampleStamps⟩] ++ [⟨exampleReused, exampleStamps⟩])
        (update exampleReused exampleStamps exampleFirst) ∧
      exampleSweep.startOf 3 = some 5 ∧ exampleReused.startOf 3 = some 900 ∧
      typesOf 3 (eventHistory (.init exampleHost)
        [⟨exampleSweep, exampleStamps⟩, ⟨exampleReused, exampleStamps⟩]) = [.processCreated] ∧
      ((update exampleReused exampleStamps exampleFirst).find 3).map
        (fun info => (info.cpuPercent, info.minfltRate, info.majfltRate)) = some (300, 15, 4) :=
  ⟨example_first.extend ⟨exampleReused_lawful, trivial, rfl⟩, by decide +kernel,
    by decide +kernel, by decide +kernel, by decide +kernel⟩

/-! Seen as another process where a sample comes between the two. -/

theorem pid_is_identity_example :
    typesOf 3 (eventHistory (.init exampleHost)
        ([⟨exampleSweep, exampleStamps⟩] ++ [⟨exampleGone, exampleStamps⟩])) =
      typesOf 3 (eventHistory (.init exampleHost) [⟨exampleSweep, exampleStamps⟩]) ++
        [.processTerminated] := by
  have lawful : (⟨exampleGone, exampleStamps⟩ : Tick).sweep.Lawful exampleFirst :=
    exampleGone_lawful
  obtain ⟨events, grown, _, _, gone⟩ := pid_is_identity example_first lawful 3
  rw [grown, typesOf_append, gone (by decide +kernel) (by decide +kernel)]

end KernelMonitor
