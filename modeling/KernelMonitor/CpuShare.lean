import KernelMonitor.ProcessIdentity

/-! # The share of one processor

A rate is a number of clock ticks over a time. The time is that between the starts of
two sweeps; the ticks are those between the two reads of the process's `stat`, each
rounded down. The two spans differ, and a short time can hold less than one tick.
-/

namespace KernelMonitor

open Library

/-- A point of the monotonic clock in seconds. -/
def Timespec.seconds (t : Timespec) : ℚ := t.sec + t.nsec / 1000000000

/-- A process with a single thread, by the processor time it has used at each instant,
    both in seconds. -/
structure SingleThreaded (used : ℝ → ℝ) : Prop where
  grows : ∀ s t, s ≤ t → used s ≤ used t
  rate : ∀ s t, s ≤ t → used t - used s ≤ t - s

/-- `utime + stime`, read at an instant: the processor time in whole ticks. -/
def TicksAt (hz : Int) (used : ℝ → ℝ) (instant : ℝ) (ticks : UInt64) : Prop :=
  (ticks.toNat : Int) = ⌊(hz : ℝ) * used instant⌋

theorem clockDiffSeconds_eq (start finish : Timespec) :
    clockDiffSeconds start finish = finish.seconds - start.seconds := by
  unfold clockDiffSeconds Timespec.seconds
  push_cast
  ring

/-- The interval of a sweep begins at the stamp of the one before it. -/
theorem sweepSeconds_update (first second : Tick) (m : ProcessMonitor) :
    sweepSeconds second.sweep (update first.sweep first.time m) =
      second.sweep.now.seconds - first.sweep.now.seconds := by
  obtain ⟨clock, stamped⟩ := collect_clock first.sweep m
  obtain ⟨_, swapped⟩ := publish_swap first.time (collect first.sweep m)
  rw [sweepSeconds, collectBegin, update, swapped]
  simp only [clock, stamped, if_true, clockDiffSeconds_eq]

theorem refCpuPercent_le_iff {c : Constants} {total : UInt64} {old : ProcessInfo} {seconds : ℚ}
    (positive : 0 < seconds) (grown : old.utime + old.stime ≤ total) :
    refCpuPercent c total (some old) seconds ≤ 100 ↔
      ((total.toNat : Int) - (old.utime + old.stime).toNat : ℚ) ≤ c.clockTicks * seconds := by
  have ticks : (0 : ℚ) < c.clockTicks := by exact_mod_cast c.clockTicks_pos
  have timed : ¬ (total < old.utime + old.stime ∨ seconds ≤ 0) := by
    rw [UInt64.lt_iff_toNat_lt, not_or]
    exact ⟨not_lt.mpr (UInt64.le_iff_toNat_le.mp grown), not_le.mpr positive⟩
  have difference : ((total - (old.utime + old.stime)).toNat : ℚ) =
      (total.toNat : ℚ) - (old.utime + old.stime).toNat := by
    rw [UInt64.toNat_sub_of_le _ _ grown, Nat.cast_sub (UInt64.le_iff_toNat_le.mp grown)]
  rw [refCpuPercent, if_neg timed, difference, div_le_iff₀ (mul_pos ticks positive),
    mul_le_mul_iff_right₀ (by norm_num : (0 : ℚ) < 100)]
  push_cast
  rfl

/-! ## Two sweeps in a row -/

/-- Two sweeps in a row read the `stat` of one process, each at some instant after it was
    stamped and before the next one is, and make an entry of it. -/
structure ReadTwice (host : Host) (used : ℝ → ℝ) (m : ProcessMonitor) (first second : Tick)
    (firstRead secondRead : ℝ) (old info : ProcessInfo) : Prop where
  history : ∃ before, (updateSystem host fun _ _ => True).Trace (before ++ [first]) m
  oldEntry : old ∈ m.sample
  entry : info ∈ (update second.sweep second.time m).sample
  same : info.pid = old.pid
  firstTicks : ∀ ticks, first.sweep.cpuTicks old.pid = some ticks →
    TicksAt host.constants.clockTicks used firstRead ticks
  secondTicks : ∀ ticks, second.sweep.cpuTicks info.pid = some ticks →
    TicksAt host.constants.clockTicks used secondRead ticks
  firstDelay : (first.sweep.now.seconds : ℝ) ≤ firstRead
  finished : firstRead ≤ second.sweep.now.seconds
  secondDelay : (second.sweep.now.seconds : ℝ) ≤ secondRead
  interval : first.sweep.now.seconds < second.sweep.now.seconds

/-- The ticks charged between the two reads. -/
noncomputable def ticksBetween (hz : Int) (used : ℝ → ℝ) (firstRead secondRead : ℝ) : Int :=
  ⌊(hz : ℝ) * used secondRead⌋ - ⌊(hz : ℝ) * used firstRead⌋

section Reads

variable {host : Host} {used : ℝ → ℝ} {m : ProcessMonitor} {first second : Tick}
  {firstRead secondRead : ℝ} {old info : ProcessInfo}

/-- The figure, from the ticks the two sweeps read. -/
theorem ReadTwice.percent_le_iff (single : SingleThreaded used)
    (reads : ReadTwice host used m first second firstRead secondRead old info) :
    ∃ a b, TicksAt host.constants.clockTicks used firstRead a ∧
      TicksAt host.constants.clockTicks used secondRead b ∧
      (info.cpuPercent ≤ 100 ↔ ((b.toNat : Int) - a.toNat : ℚ) ≤
        host.constants.clockTicks * (second.sweep.now.seconds - first.sweep.now.seconds)) := by
  obtain ⟨before, history⟩ := reads.history
  have valid := updates_valid history
  obtain ⟨firstRun, _⟩ := reported_times history reads.oldEntry
  have firstTicks := reads.firstTicks _ firstRun
  obtain ⟨read, found, rates⟩ := published_entry valid reads.entry
  obtain ⟨st, parsed, user, system, _⟩ := refReads_stat found
  have secondTicks := reads.secondTicks (st.utime + st.stime)
    (by rw [Sweep.cpuTicks, parsed, Option.map_some])
  have known : m.find info.pid = some old :=
    valid.find_iff.mpr ⟨reads.oldEntry, reads.same.symm⟩
  have seconds : sweepSeconds second.sweep m =
      second.sweep.now.seconds - first.sweep.now.seconds := by
    obtain ⟨_, _, run⟩ := history
    obtain ⟨earlier, _, _, _, rfl⟩ := run.last
    exact sweepSeconds_update first second earlier
  have percent : info.cpuPercent = refCpuPercent host.constants (st.utime + st.stime) (some old)
      (second.sweep.now.seconds - first.sweep.now.seconds) := by
    rw [rates, known, seconds, updates_constants history, ← user, ← system]
    rfl
  have grown : old.utime + old.stime ≤ st.utime + st.stime := by
    have ticks : (0 : ℝ) ≤ host.constants.clockTicks := by
      exact_mod_cast host.constants.clockTicks_pos.le
    have later := single.grows firstRead secondRead (reads.finished.trans reads.secondDelay)
    have counted := Int.floor_le_floor (mul_le_mul_of_nonneg_left later ticks)
    rw [← firstTicks, ← secondTicks] at counted
    exact UInt64.le_iff_toNat_le.mpr (by omega)
  refine ⟨_, _, firstTicks, secondTicks, ?_⟩
  rw [percent, refCpuPercent_le_iff (sub_pos.mpr reads.interval) grown]

/-- A single-threaded process reads at most 100% exactly where the ticks charged to it
    between the two reads are no more than there are ticks in the time between the two
    stamps. -/
theorem cpu_percent_le_iff (single : SingleThreaded used)
    (reads : ReadTwice host used m first second firstRead secondRead old info) :
    info.cpuPercent ≤ 100 ↔
      (ticksBetween host.constants.clockTicks used firstRead secondRead : ℚ) ≤
        host.constants.clockTicks * (second.sweep.now.seconds - first.sweep.now.seconds) := by
  obtain ⟨a, b, firstTicks, secondTicks, percent⟩ := reads.percent_le_iff single
  rw [percent, ticksBetween, ← firstTicks, ← secondTicks, Int.cast_sub, Int.cast_natCast a.toNat]

end Reads

/-! A busy process swept twice within a millisecond, across the end of a tick, and an
idle one swept every two seconds. -/

def exampleBusyStat (utime : Bytes) : PidFiles :=
  { unreadable with
    stat := some (text "3 (sh) R 1 3 3 34816 3 0 20 0 1 0 " ++ utime ++
      text " 0 0 0 20 0 1 0 5 0") }

def exampleBeforeTick : Sweep :=
  { exampleSweep with now := ⟨10, 9500000⟩, files := fun _ => exampleBusyStat (text "1000") }

def exampleAfterTick : Sweep :=
  { exampleSecond with now := ⟨10, 10500000⟩, files := fun _ => exampleBusyStat (text "1001") }

theorem exampleBeforeTick_lawful : exampleBeforeTick.Lawful (.init exampleHost) :=
  ⟨exampleSweep_lawful.listing, exampleSweep_lawful.fresh⟩

theorem example_before_tick :
    (updateSystem exampleHost fun _ _ => True).Trace
      ([] ++ [⟨exampleBeforeTick, exampleStamps⟩])
      (update exampleBeforeTick exampleStamps (.init exampleHost)) :=
  ⟨_, rfl, .single ⟨exampleBeforeTick_lawful, trivial, rfl⟩⟩

theorem singleThreaded_id : SingleThreaded id :=
  ⟨fun _ _ later => later, fun _ _ _ => le_rfl⟩

theorem ticksAt_of_bounds {hz : Int} {used : ℝ → ℝ} {instant : ℝ} {ticks : UInt64} (count : Nat)
    (counted : ticks.toNat = count) (low : count ≤ (hz : ℝ) * used instant)
    (high : (hz : ℝ) * used instant < count + 1) : TicksAt hz used instant ticks := by
  rw [TicksAt, counted, eq_comm, Int.floor_eq_iff]
  exact ⟨by exact_mod_cast low, by exact_mod_cast high⟩

/-- Two found entries, read from the ticks of their sweeps. -/
theorem ReadTwice.of_find {host : Host} {used : ℝ → ℝ} {m : ProcessMonitor} {first second : Tick}
    {firstRead secondRead : ℝ} {old info : ProcessInfo} {pid : Int} {a b : UInt64}
    (history : (updateSystem host fun _ _ => True).Trace ([] ++ [first]) m)
    (was : m.find pid = some old)
    (is : (update second.sweep second.time m).find pid = some info)
    (firstRun : first.sweep.cpuTicks pid = some a)
    (secondRun : second.sweep.cpuTicks pid = some b)
    (firstTicks : TicksAt host.constants.clockTicks used firstRead a)
    (secondTicks : TicksAt host.constants.clockTicks used secondRead b)
    (delays : (first.sweep.now.seconds : ℝ) ≤ firstRead ∧ firstRead ≤ second.sweep.now.seconds ∧
      (second.sweep.now.seconds : ℝ) ≤ secondRead)
    (interval : first.sweep.now.seconds < second.sweep.now.seconds) :
    ReadTwice host used m first second firstRead secondRead old info := by
  obtain ⟨oldEntry, rfl⟩ := ProcessMonitor.find_sound was
  obtain ⟨entry, same⟩ := ProcessMonitor.find_sound is
  rw [← same] at secondRun
  exact
    { history := ⟨[], history⟩
      oldEntry := oldEntry
      entry := entry
      same := same
      firstTicks := fun ticks read => Option.some.inj (firstRun.symm.trans read) ▸ firstTicks
      secondTicks := fun ticks read => Option.some.inj (secondRun.symm.trans read) ▸ secondTicks
      firstDelay := delays.1
      finished := delays.2.1
      secondDelay := delays.2.2
      interval := interval }

theorem busy_reads_thousand :
    ∃ m first second firstRead secondRead old info, SingleThreaded id ∧
      ReadTwice exampleHost id m first second firstRead secondRead old info ∧
      info.cpuPercent = 1000 := by
  let m := update exampleBeforeTick exampleStamps (.init exampleHost)
  obtain ⟨old, was⟩ := Option.isSome_iff_exists.mp
    (by decide +kernel : (m.find 3).isSome = true)
  obtain ⟨info, is, percent⟩ := Option.map_eq_some_iff.mp
    (by decide +kernel : ((update exampleAfterTick exampleStamps m).find 3).map
      ProcessInfo.cpuPercent = some 1000)
  have hz : exampleHost.constants.clockTicks = 100 := rfl
  refine ⟨m, ⟨exampleBeforeTick, exampleStamps⟩, ⟨exampleAfterTick, exampleStamps⟩, 10.0095,
    10.0105, old, info, singleThreaded_id, ?_, percent⟩
  refine .of_find example_before_tick was is (a := 1000) (b := 1001) (by decide +kernel)
    (by decide +kernel) ?_ ?_ ?_ (by decide +kernel)
  · exact ticksAt_of_bounds 1000 rfl (by norm_num [hz]) (by norm_num [hz])
  · exact ticksAt_of_bounds 1001 rfl (by norm_num [hz]) (by norm_num [hz])
  · norm_num [Timespec.seconds, exampleBeforeTick, exampleAfterTick]

theorem cpu_percent_le_example :
    ∃ info ∈ (update exampleSecond exampleStamps exampleFirst).sample, info.pid = 3 ∧
      info.cpuPercent ≤ 100 := by
  obtain ⟨old, was⟩ := Option.isSome_iff_exists.mp
    (by decide +kernel : (exampleFirst.find 3).isSome = true)
  obtain ⟨info, is⟩ := Option.isSome_iff_exists.mp
    (by decide +kernel :
      ((update exampleSecond exampleStamps exampleFirst).find 3).isSome = true)
  have hz : exampleHost.constants.clockTicks = 100 := rfl
  have idle : SingleThreaded fun _ => 0.42 :=
    ⟨fun _ _ _ => le_rfl, fun s t later => by simpa using later⟩
  have ticks instant : TicksAt exampleHost.constants.clockTicks (fun _ => 0.42) instant 42 :=
    ticksAt_of_bounds 42 rfl (by norm_num [hz]) (by norm_num [hz])
  have reads : ReadTwice exampleHost (fun _ => 0.42) exampleFirst ⟨exampleSweep, exampleStamps⟩
      ⟨exampleSecond, exampleStamps⟩ 10 12 old info :=
    .of_find example_first was is (a := 42) (b := 42) (by decide +kernel) (by decide +kernel)
      (ticks _) (ticks _) (by norm_num [Timespec.seconds, exampleSweep, exampleSecond])
      (by decide +kernel)
  obtain ⟨entry, pid⟩ := ProcessMonitor.find_sound is
  refine ⟨info, entry, pid, (cpu_percent_le_iff idle reads).mpr ?_⟩
  rw [ticksBetween, sub_self, hz]
  norm_num [Timespec.seconds, exampleSweep, exampleSecond]

end KernelMonitor
