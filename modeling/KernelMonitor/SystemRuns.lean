import KernelMonitor.Library.LabelledRun
import KernelMonitor.SystemMonitor

/-! # Figures over successive readings

The processor figure compares two readings, the memory figures take one. Each is a
quotient of an unsigned difference that nothing keeps from wrapping, and is computed in
`double`s: it is a percentage exactly when a hundred times the part, as rounded, is no
more than the tie above a hundred lets through.
-/

namespace KernelMonitor

open Library

/-! ## Calls in any order -/

/-- The parts of `km_system_monitor_update`, each with what its reads come back with. -/
inductive SystemCall where
  | systemInfo (reads : SystemReads)
  | cpuStats (reads : SystemReads)
  | memoryStats (reads : SystemReads)
  | loadAverage (reads : SystemReads)

def SystemCall.apply : SystemCall → SystemMonitor → Bool × SystemMonitor
  | .systemInfo reads, m => m.updateSystemInfo reads
  | .cpuStats reads, m => m.updateCpuStats reads
  | .memoryStats reads, m => m.updateMemoryStats reads
  | .loadAverage reads, m => m.updateLoadAverage reads

/-- Any calls, from any state. -/
def systemCalls : LabelledSystem SystemMonitor SystemCall where
  Init _ := True
  Step m call m' := m' = (call.apply m).2

/-- The counters of the aggregate line, where it can be read. -/
def SystemReads.cpuTimes (reads : SystemReads) : Option CpuTimes :=
  reads.stat.bind fun stat =>
    (readLine (cString stat) 512).bind fun (line, _) => parseCpuLine line

/-- The calls that read no counters. -/
def SystemCall.Quiet : SystemCall → Prop
  | .cpuStats reads => reads.cpuTimes = none
  | _ => True

/-- What the processor figure and the next one depend on. -/
structure SameCpu (before after : SystemMonitor) : Prop where
  percent : after.cpuUsagePercent = before.cpuUsagePercent
  total : after.prevTotalCpu = before.prevTotalCpu
  idle : after.prevIdleCpu = before.prevIdleCpu

namespace SystemMonitor

theorem perCorePush_sameCpu (grows : Nat → Bool) (m : SystemMonitor) (usage : Double) :
    SameCpu m (m.perCorePush grows usage) := by
  unfold perCorePush
  split
  · split <;> exact ⟨rfl, rfl, rfl⟩
  · exact ⟨rfl, rfl, rfl⟩

theorem readCores_sameCpu (grows : Nat → Bool) (lines : List Bytes) (m : SystemMonitor) :
    SameCpu m (readCores grows lines m) := by
  induction lines generalizing m with
  | nil => exact ⟨rfl, rfl, rfl⟩
  | cons line rest ih =>
      rw [readCores]
      split
      · exact ⟨rfl, rfl, rfl⟩
      · split
        · exact ih m
        · rename_i times _
          split
          · have pushed := m.perCorePush_sameCpu grows (busyPercent times.total times.totalIdle)
            have later := ih (m.perCorePush grows (busyPercent times.total times.totalIdle))
            exact ⟨later.percent.trans pushed.percent, later.total.trans pushed.total,
              later.idle.trans pushed.idle⟩
          · exact ih m

theorem updateSystemInfo_sameCpu (reads : SystemReads) (m : SystemMonitor) :
    SameCpu m (m.updateSystemInfo reads).2 := by
  unfold updateSystemInfo
  cases reads.version with
  | none => exact ⟨rfl, rfl, rfl⟩
  | some version =>
      dsimp only
      generalize sscanf versionFormat (cString version) = scanned
      cases reads.uptime <;> dsimp only <;> split <;> exact ⟨rfl, rfl, rfl⟩

/-- A failed update leaves the monitor alone. -/
theorem updateCpuStats_none {reads : SystemReads} (unread : reads.cpuTimes = none)
    (m : SystemMonitor) : m.updateCpuStats reads = (false, m) := by
  unfold SystemReads.cpuTimes at unread
  unfold updateCpuStats
  cases stat : reads.stat with
  | none => rfl
  | some content =>
      rw [stat, Option.bind_some] at unread
      dsimp only
      cases first : readLine (cString content) 512 with
      | none => rfl
      | some line =>
          rw [first, Option.bind_some] at unread
          dsimp only at unread ⊢
          rw [unread]

/-- A successful one takes the figure and keeps the two sums for the next. -/
theorem updateCpuStats_some {reads : SystemReads} {times : CpuTimes}
    (read : reads.cpuTimes = some times) (m : SystemMonitor) :
    (m.updateCpuStats reads).1 = true ∧
      (m.updateCpuStats reads).2.cpuUsagePercent = m.cpuUsage times ∧
      (m.updateCpuStats reads).2.prevTotalCpu = times.total ∧
      (m.updateCpuStats reads).2.prevIdleCpu = times.totalIdle := by
  unfold SystemReads.cpuTimes at read
  obtain ⟨content, stat, read⟩ := Option.bind_eq_some_iff.mp read
  obtain ⟨⟨line, cursor⟩, first, parsed⟩ := Option.bind_eq_some_iff.mp read
  unfold updateCpuStats
  rw [stat]
  dsimp only
  rw [first]
  dsimp only at parsed ⊢
  rw [parsed]
  have cores := readCores_sameCpu reads.growCores (readLines cursor 512) { m with
    cpuUsagePercent := m.cpuUsage times
    prevTotalCpu := times.total
    prevIdleCpu := times.totalIdle
    perCoreCpuUsage := [] }
  exact ⟨rfl, cores.percent, cores.total, cores.idle⟩

end SystemMonitor

theorem SystemCall.Quiet.sameCpu {call : SystemCall} (quiet : call.Quiet) (m : SystemMonitor) :
    SameCpu m (call.apply m).2 := by
  cases call with
  | systemInfo reads => exact m.updateSystemInfo_sameCpu reads
  | cpuStats reads =>
      rw [apply, SystemMonitor.updateCpuStats_none quiet]
      exact ⟨rfl, rfl, rfl⟩
  | memoryStats reads =>
      rw [apply, SystemMonitor.updateMemoryStats]
      cases reads.meminfo <;> exact ⟨rfl, rfl, rfl⟩
  | loadAverage reads =>
      rw [apply, SystemMonitor.updateLoadAverage]
      cases reads.loadavg <;> exact ⟨rfl, rfl, rfl⟩

theorem quiet_run {m later : SystemMonitor} {calls : List SystemCall}
    (run : systemCalls.Run m calls later) (quiet : ∀ call ∈ calls, call.Quiet) :
    SameCpu m later := by
  refine run.keeps_along (P := SameCpu m) ?_ quiet ⟨rfl, rfl, rfl⟩
  intro s call t step quiet kept
  rw [step]
  have here := quiet.sameCpu s
  exact ⟨here.percent.trans kept.percent, here.total.trans kept.total, here.idle.trans kept.idle⟩

/-! ## Quotients of wrapping differences -/

theorem sub_le_self_iff {a b : UInt64} : a - b ≤ a ↔ b ≤ a := by
  have small := b.toNat_lt
  have room := a.toNat_lt
  rw [UInt64.le_iff_toNat_le, UInt64.le_iff_toNat_le, UInt64.toNat_sub]
  omega

/-- A hundred times the part is no more than a hundred times the whole, apart from half of
    the spacing that `double`s have above 100; each is rounded to 53 binary digits. -/
def WithinHundred (part whole : UInt64) : Prop :=
  (hundredfold part : ℚ) ≤ (100 + 1 / 2 ^ 47) * round53 whole.toNat

instance (part whole : UInt64) : Decidable (WithinHundred part whole) :=
  inferInstanceAs (Decidable (_ ≤ _))

theorem percentOf_range_iff {part whole : UInt64} (positive : 0 < whole) :
    (0 ≤ percentOf part whole ∧ percentOf part whole ≤ 100) ↔ WithinHundred part whole := by
  have counted : 1 ≤ whole.toNat := UInt64.lt_iff_toNat_lt.mp positive
  have rounded : 1 ≤ round53 whole.toNat :=
    le_round53 (Nat.cast_nonneg _) (by decide) (by exact_mod_cast counted)
  have above : (0 : ℚ) < round53 whole.toNat := by exact_mod_cast rounded
  rw [percentOf, Double.nearest_le_hundred_iff, and_iff_right (Double.zero_le_nearest _)]
  push_cast
  exact div_le_iff₀ above

example : ¬ percentOf 360287970189643 360287970189643 ≤ 100 := by decide +kernel

/-- Where the hundredfold has no more than 53 binary digits nothing is rounded. -/
theorem withinHundred_iff {part whole : UInt64} (small : 100 * (whole.toNat + 1) ≤ 2 ^ 53) :
    WithinHundred part whole ↔ part ≤ whole := by
  have kept : round53 whole.toNat = whole.toNat := round53_natCast (by omega)
  rw [WithinHundred, kept, UInt64.le_iff_toNat_le]
  constructor
  · intro within
    by_contra beyond
    have next : whole.toNat + 1 ≤ round53 part.toNat :=
      le_round53 (Nat.cast_nonneg _) (by omega) (by exact_mod_cast Nat.lt_of_not_le beyond)
    have product : 100 * (whole.toNat + 1) ≤ hundredfold part :=
      le_round53 (Nat.cast_nonneg _) small (by exact_mod_cast Nat.mul_le_mul_left 100 next)
    have cast : (100 : ℚ) * (whole.toNat + 1) ≤ hundredfold part := by exact_mod_cast product
    have room : (whole.toNat : ℚ) ≤ 2 ^ 53 := by exact_mod_cast (by omega : whole.toNat ≤ 2 ^ 53)
    linarith
  · intro inside
    have part_kept : round53 part.toNat = part.toNat := round53_natCast (by omega)
    have product : hundredfold part = 100 * part.toNat := by
      rw [hundredfold, part_kept, round53_natCast (by omega)]
    have cast : (part.toNat : ℚ) ≤ whole.toNat := by exact_mod_cast inside
    have some : (0 : ℚ) ≤ whole.toNat := Nat.cast_nonneg _
    rw [product]
    push_cast
    linarith

/-! ## The processor -/

theorem zero_in_range : (0 : Double) ≤ 0 ∧ (0 : Double) ≤ 100 := by decide +kernel

theorem SystemMonitor.cpuUsage_range_iff {m : SystemMonitor} {times : CpuTimes} :
    (0 ≤ m.cpuUsage times ∧ m.cpuUsage times ≤ 100) ↔
      m.prevTotalCpu = 0 ∨ times.total = m.prevTotalCpu ∨
        WithinHundred (times.total - m.prevTotalCpu - (times.totalIdle - m.prevIdleCpu))
          (times.total - m.prevTotalCpu) := by
  unfold cpuUsage
  by_cases first : m.prevTotalCpu = 0
  · simp [first, zero_in_range]
  · have seeded : 0 < m.prevTotalCpu := UInt64.pos_iff_ne_zero.mpr first
    by_cases still : times.total = m.prevTotalCpu
    · simp [still, zero_in_range]
    · have grown : 0 < times.total - m.prevTotalCpu :=
        UInt64.pos_iff_ne_zero.mpr fun none => still (UInt64.sub_eq_iff_eq_add.mp none |>.trans
          (UInt64.zero_add _))
      simp only [seeded, grown, if_true, first, still, false_or]
      exact percentOf_range_iff grown

/-- After two successful readings in a row the figure is a percentage exactly where a
    hundred times the growth that was not idle stays within a hundred times the whole
    growth, both growths in unsigned arithmetic and rounded as `double`s are; with less
    than 2 ^ 46 ticks of growth, where the idle columns together grew no more than all
    columns did. Without growth, or after a first reading of zeros, it is 0. -/
theorem cpu_usage_range_iff {m later : SystemMonitor} {first second : SystemReads}
    {before after : CpuTimes} {between : List SystemCall}
    (readFirst : first.cpuTimes = some before) (readSecond : second.cpuTimes = some after)
    (quiet : ∀ call ∈ between, call.Quiet)
    (run : systemCalls.Run m (.cpuStats first :: between ++ [.cpuStats second]) later) :
    (0 ≤ later.cpuUsagePercent ∧ later.cpuUsagePercent ≤ 100) ↔
      before.total = 0 ∨ after.total = before.total ∨
        WithinHundred (after.total - before.total - (after.totalIdle - before.totalIdle))
          (after.total - before.total) := by
  obtain ⟨last, run, final⟩ := run.last
  obtain ⟨start, began, rest⟩ := run.first
  obtain ⟨_, _, total, idle⟩ := SystemMonitor.updateCpuStats_some readFirst m
  obtain ⟨_, percent, _, _⟩ := SystemMonitor.updateCpuStats_some readSecond last
  have kept := quiet_run rest quiet
  rw [began] at kept
  have lastTotal : last.prevTotalCpu = before.total := kept.total.trans total
  have lastIdle : last.prevIdleCpu = before.totalIdle := kept.idle.trans idle
  rw [final, SystemCall.apply, percent, SystemMonitor.cpuUsage_range_iff, lastTotal, lastIdle]

/-! The `iowait` column falls by 5 while 10 ticks are spent in user mode. -/

def exampleStatReads (stat : Bytes) : SystemReads :=
  ⟨none, none, some stat, none, none, fun _ => true, posixNumbers⟩

def exampleBusy : SystemReads := exampleStatReads (text "cpu  10 0 0 100 20 0 0\n")

def exampleBusier : SystemReads := exampleStatReads (text "cpu  20 0 0 100 15 0 0\n")

theorem iowait_drop_exceeds :
    ∃ later, systemCalls.Run .zero [.cpuStats exampleBusy, .cpuStats exampleBusier] later ∧
      exampleBusy.cpuTimes = some ⟨10, 0, 0, 100, 20, 0, 0⟩ ∧
      exampleBusier.cpuTimes = some ⟨20, 0, 0, 100, 15, 0, 0⟩ ∧
      later.cpuUsagePercent = 200 :=
  ⟨_, .cons rfl (.single rfl), by decide +kernel, by decide +kernel, by decide +kernel⟩

/-! Ten ticks of work and ten of rest. -/

def exampleResting : SystemReads := exampleStatReads (text "cpu  20 0 0 110 20 0 0\n")

theorem cpu_usage_range_example :
    let later := ((SystemMonitor.zero.updateCpuStats exampleBusy).2.updateCpuStats exampleResting).2
    0 ≤ later.cpuUsagePercent ∧ later.cpuUsagePercent ≤ 100 := by
  have run : systemCalls.Run .zero (.cpuStats exampleBusy :: [] ++ [.cpuStats exampleResting]) _ :=
    .cons rfl (.single rfl)
  have before : exampleBusy.cpuTimes = some ⟨10, 0, 0, 100, 20, 0, 0⟩ := by decide +kernel
  have after : exampleResting.cpuTimes = some ⟨20, 0, 0, 110, 20, 0, 0⟩ := by decide +kernel
  exact (cpu_usage_range_iff before after (by simp) run).mpr
    (.inr (.inr ((withinHundred_iff (by decide)).mpr (by decide))))

/-! ## The memory -/

/-- What the memory figures of a monitor ought to be. -/
structure SystemMonitor.MemoryInRange (m : SystemMonitor) : Prop where
  used : m.memUsed ≤ m.memTotal
  swapUsed : m.swapUsed ≤ m.swapTotal
  percent : 0 ≤ m.memUsagePercent ∧ m.memUsagePercent ≤ 100
  swapPercent : 0 ≤ m.swapUsagePercent ∧ m.swapUsagePercent ≤ 100

/-- Both percentages come from the reading, whatever the monitor held before. -/
def SystemReads.DecidesMemory (reads : SystemReads) : Prop :=
  ∀ m m' : SystemMonitor,
    (m.updateMemoryStats reads).2.memUsagePercent =
        (m'.updateMemoryStats reads).2.memUsagePercent ∧
      (m.updateMemoryStats reads).2.swapUsagePercent =
        (m'.updateMemoryStats reads).2.swapUsagePercent

theorem memUsed_le_iff {total free buffers cached : UInt64} :
    total - free - buffers - cached ≤ total ↔ free + buffers + cached ≤ total := by
  have whole : total - free - buffers - cached = total - (free + buffers + cached) := by grind
  rw [whole, sub_le_self_iff]

/-- Swap has a guard for a total of zero, so only its difference can go wrong. -/
theorem swapPercent_range_iff {total free : UInt64} (inside : free ≤ total) :
    let percent : Double := if 0 < total then percentOf (total - free) total else 0
    (0 ≤ percent ∧ percent ≤ 100) ↔ WithinHundred (total - free) total := by
  by_cases some : 0 < total
  · simpa only [some, if_true] using percentOf_range_iff some
  · obtain rfl : total = 0 := by grind
    obtain rfl : free = 0 := by grind
    exact iff_of_true zero_in_range (by decide +kernel)

/-- The memory figures of a successful update are right, and are this reading's own,
    exactly where it reports memory at all, no more of it free, in buffers and cached
    than there is, and no more swap free than there is; all in bytes, as the update
    computes them. Beyond 2 ^ 46 bytes the two quotients have to stay within a hundred
    after they are rounded as well. -/
theorem memory_in_range_iff {reads : SystemReads} {content : Bytes}
    (readable : reads.meminfo = some content) :
    let info := parseMeminfo (cString content)
    let unused := info.memFree * 1024 + info.buffers * 1024 + info.cached * 1024
    ((∀ m : SystemMonitor, (m.updateMemoryStats reads).2.MemoryInRange) ∧ reads.DecidesMemory) ↔
      0 < info.memTotal * 1024 ∧ unused ≤ info.memTotal * 1024 ∧
        info.swapFree * 1024 ≤ info.swapTotal * 1024 ∧
        WithinHundred (info.memTotal * 1024 - unused) (info.memTotal * 1024) ∧
        WithinHundred (info.swapTotal * 1024 - info.swapFree * 1024) (info.swapTotal * 1024) := by
  intro info unused
  have whole : info.memTotal * 1024 - info.memFree * 1024 - info.buffers * 1024 -
      info.cached * 1024 = info.memTotal * 1024 - unused := by grind
  constructor
  · intro right
    obtain ⟨in_range, decides⟩ := right
    have ranges := in_range .zero
    have differ : (0 : Double) ≠ 1 := by decide +kernel
    have same := (decides .zero { SystemMonitor.zero with memUsagePercent := 1 }).1
    obtain ⟨used, swapUsed, percent, swapPercent⟩ := ranges
    simp only [SystemMonitor.updateMemoryStats, readable] at used swapUsed percent swapPercent same
    have swap := sub_le_self_iff.mp swapUsed
    have some : 0 < info.memTotal * 1024 := by
      by_contra none
      simp only [info] at none
      simp only [none, if_false, SystemMonitor.zero] at same
      exact differ same
    simp only [info] at some
    rw [if_pos some, percentOf_range_iff some] at percent
    exact ⟨some, memUsed_le_iff.mp used, swap, whole ▸ percent,
      (swapPercent_range_iff swap).mp swapPercent⟩
  · intro condition
    obtain ⟨some, inside, swap, percent, swapPercent⟩ := condition
    have used := memUsed_le_iff.mpr inside
    rw [← whole] at percent
    simp only [info] at some used swap percent
    constructor
    · intro m
      simp only [SystemMonitor.updateMemoryStats, readable, some, if_true]
      refine ⟨used, sub_le_self_iff.mpr swap, ?_, ?_⟩
      · dsimp only
        exact (percentOf_range_iff some).mpr percent
      · dsimp only
        exact (swapPercent_range_iff swap).mpr swapPercent
    · intro m m'
      simp only [SystemMonitor.updateMemoryStats, readable, some, if_true, and_self]

/-! A reading with more cached than is not free, and an empty one after a good one. -/

def exampleMemory (meminfo : Bytes) : SystemReads :=
  ⟨none, none, none, some meminfo, none, fun _ => true, posixNumbers⟩

def exampleMeminfo : Bytes := text "MemTotal: 1000 kB\nMemFree: 250 kB\nSwapTotal: 8 kB\n"

def exampleOvercounted : Bytes :=
  text "MemTotal: 1000 kB\nMemFree: 800 kB\nBuffers: 100 kB\nCached: 200 kB\n"

theorem memory_out_of_range :
    (SystemMonitor.zero.updateMemoryStats (exampleMemory exampleOvercounted)).1 = true ∧
      ¬ (SystemMonitor.zero.updateMemoryStats (exampleMemory exampleOvercounted)).2.MemoryInRange ∧
      ¬ (exampleMemory []).DecidesMemory := by
  refine ⟨by decide +kernel, fun in_range => ?_, fun decides => ?_⟩
  · exact absurd in_range.used (by decide +kernel)
  · have kept := (decides (SystemMonitor.zero.updateMemoryStats (exampleMemory exampleMeminfo)).2
      .zero).1
    exact absurd kept (by decide +kernel)

theorem memory_in_range_example :
    (∀ m : SystemMonitor,
      (m.updateMemoryStats (exampleMemory exampleMeminfo)).2.MemoryInRange) ∧
      (exampleMemory exampleMeminfo).DecidesMemory :=
  (memory_in_range_iff rfl).mpr (by decide +kernel)

end KernelMonitor
