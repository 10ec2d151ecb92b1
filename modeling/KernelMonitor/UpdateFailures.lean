import KernelMonitor.SystemRuns

/-! # Updates that fail

Three of the parts of `km_system_monitor_update` parse into locals and store what they
accept. The load average is scanned straight into the monitor, so a text that goes wrong
after its first number has left that number behind when the call reports failure.
-/

namespace KernelMonitor

open Library

/-! ## Scanning numbers -/

/-- The numbers at the front of a text, at most `n` of them. -/
def leadingNumbers (numbers : NumberSyntax) : Nat → Bytes → List Double
  | 0, _ => []
  | n + 1, input =>
      match readDouble numbers input with
      | none => []
      | some (x, rest) => x :: leadingNumbers numbers n rest

theorem readDouble_dropWhile (numbers : NumberSyntax) (input : Bytes) :
    readDouble numbers (input.dropWhile isSpace) = readDouble numbers input := by
  simp only [readDouble, List.dropWhile_idempotent]

def numbersFormat (numbers : NumberSyntax) : Nat → List Directive
  | 0 => []
  | n + 1 => .space :: .assign (.double numbers) :: numbersFormat numbers n

theorem sscanf_numbersFormat (numbers : NumberSyntax) (n : Nat) (input : Bytes) :
    sscanf (numbersFormat numbers n) input = (leadingNumbers numbers n input).map .double := by
  induction n generalizing input with
  | zero => rfl
  | succ n ih =>
      simp only [numbersFormat, sscanf, Conversion.read, readDouble_dropWhile, leadingNumbers]
      cases readDouble numbers input with
      | none => rfl
      | some read => simp only [Option.map_some, ih, List.map_cons]

theorem leadingNumbers_length (numbers : NumberSyntax) (n : Nat) (input : Bytes) :
    (leadingNumbers numbers n input).length ≤ n := by
  induction n generalizing input with
  | zero => exact Nat.zero_le 0
  | succ n ih =>
      rw [leadingNumbers]
      cases readDouble numbers input with
      | none => exact Nat.zero_le _
      | some read => exact Nat.succ_le_succ (ih read.2)

/-- The fields `km_parse_loadavg` is given, in order. -/
def LoadAverage.held (load : LoadAverage) : List Double := [load.load1, load.load5, load.load15]

theorem LoadAverage.held_inj {load load' : LoadAverage} :
    load.held = load'.held ↔ load = load' := by
  cases load
  cases load'
  simp [held]

/-- Each number found replaces the field it was meant for, whether or not all are found. -/
theorem parseLoadavg_stores (numbers : NumberSyntax) (content : Bytes) (load : LoadAverage) :
    ((parseLoadavg numbers content load).1 = true ↔
        (leadingNumbers numbers 3 content).length = 3) ∧
      (parseLoadavg numbers content load).2.held = leadingNumbers numbers 3 content ++
        load.held.drop (leadingNumbers numbers 3 content).length := by
  have format : [.assign (.double numbers), .space, .assign (.double numbers), .space,
      .assign (.double numbers)] = (numbersFormat numbers 3).tail := rfl
  have skipped : ∀ input, sscanf (numbersFormat numbers 3).tail input =
      sscanf (numbersFormat numbers 3) input := by
    intro input
    simp only [numbersFormat, List.tail_cons, sscanf, Conversion.read, readDouble_dropWhile]
  have short := leadingNumbers_length numbers 3 content
  rw [parseLoadavg, format, skipped, sscanf_numbersFormat]
  generalize leadingNumbers numbers 3 content = found at short ⊢
  rcases found with _ | ⟨a, _ | ⟨b, _ | ⟨c, _ | ⟨d, more⟩⟩⟩⟩
  · simp [LoadAverage.held]
  · simp [LoadAverage.held]
  · simp [LoadAverage.held]
  · simp [LoadAverage.held]
  · simp only [List.length_cons] at short
    omega

/-! ## When a failed call changes nothing -/

/-- The numbers of `/proc/loadavg` are all there, or those there are held already. -/
def SystemReads.LoadAllOrKept (reads : SystemReads) (m : SystemMonitor) : Prop :=
  ∀ content, reads.loadavg = some content →
    (leadingNumbers reads.numbers 3 (cString content)).length = 3 ∨
      leadingNumbers reads.numbers 3 (cString content) <+: m.loadAvg.held

def SystemCall.NothingHalfStored (m : SystemMonitor) : SystemCall → Prop
  | .loadAverage reads => reads.LoadAllOrKept m
  | _ => True

/-- A call that fails leaves the monitor as it was. -/
def SystemCall.KeptOnFailure (m : SystemMonitor) (call : SystemCall) : Prop :=
  (call.apply m).1 = false → (call.apply m).2 = m

namespace SystemMonitor

theorem updateSystemInfo_failed {reads : SystemReads} {m : SystemMonitor}
    (failed : (m.updateSystemInfo reads).1 = false) : (m.updateSystemInfo reads).2 = m := by
  unfold updateSystemInfo at failed ⊢
  cases version : reads.version with
  | none => rfl
  | some content =>
      rw [version] at failed
      cases uptime : reads.uptime <;> simp [uptime] at failed

theorem updateCpuStats_failed {reads : SystemReads} {m : SystemMonitor}
    (failed : (m.updateCpuStats reads).1 = false) : (m.updateCpuStats reads).2 = m := by
  cases read : reads.cpuTimes with
  | none => rw [updateCpuStats_none read]
  | some times => simp [(updateCpuStats_some read m).1] at failed

theorem updateMemoryStats_failed {reads : SystemReads} {m : SystemMonitor}
    (failed : (m.updateMemoryStats reads).1 = false) : (m.updateMemoryStats reads).2 = m := by
  unfold updateMemoryStats at failed ⊢
  cases meminfo : reads.meminfo with
  | none => rfl
  | some content => simp [meminfo] at failed

theorem updateLoadAverage_failed_iff {reads : SystemReads} {m : SystemMonitor} :
    ((m.updateLoadAverage reads).1 = false → (m.updateLoadAverage reads).2 = m) ↔
      reads.LoadAllOrKept m := by
  unfold SystemReads.LoadAllOrKept updateLoadAverage
  cases reads.loadavg with
  | none => simp
  | some content =>
      obtain ⟨parsed, stored⟩ := parseLoadavg_stores reads.numbers (cString content) m.loadAvg
      have kept :
          { m with loadAvg := (parseLoadavg reads.numbers (cString content) m.loadAvg).2 } = m ↔
            leadingNumbers reads.numbers 3 (cString content) <+: m.loadAvg.held := by
        rw [List.prefix_iff_eq_append, ← stored, LoadAverage.held_inj]
        constructor
        · intro same
          exact congrArg SystemMonitor.loadAvg same
        · intro same
          rw [same]
      simp only [Option.some.injEq, forall_eq', kept, ← parsed]
      cases (parseLoadavg reads.numbers (cString content) m.loadAvg).1 <;> simp

end SystemMonitor

/-- A failed call keeps the monitor whatever it reads, except that a failed update of the
    load average does so exactly when the numbers it found are those already held. -/
theorem kept_on_failure_iff (m : SystemMonitor) (call : SystemCall) :
    call.KeptOnFailure m ↔ call.NothingHalfStored m := by
  cases call with
  | systemInfo reads => exact iff_of_true SystemMonitor.updateSystemInfo_failed trivial
  | cpuStats reads => exact iff_of_true SystemMonitor.updateCpuStats_failed trivial
  | memoryStats reads => exact iff_of_true SystemMonitor.updateMemoryStats_failed trivial
  | loadAverage reads => exact SystemMonitor.updateLoadAverage_failed_iff

/-! A second number that is none, and a locale whose numbers have a comma. -/

def exampleLoad (loadavg : Bytes) : SystemReads :=
  ⟨none, none, none, none, some loadavg, fun _ => true, posixNumbers⟩

def exampleComma : SystemReads :=
  { exampleLoad (text "1.52 0.58 0.59 1/467 9\n") with numbers := ⟨text ",", by decide, false⟩ }

theorem half_stored_load :
    (SystemMonitor.zero.updateLoadAverage (exampleLoad (text "1.5 x\n"))).1 = false ∧
      (SystemMonitor.zero.updateLoadAverage (exampleLoad (text "1.5 x\n"))).2.loadAvg =
        ⟨.nearest false (3 / 2), 0, 0⟩ ∧
      (SystemMonitor.zero.updateLoadAverage exampleComma).1 = false ∧
      (SystemMonitor.zero.updateLoadAverage exampleComma).2.loadAvg =
        ⟨.nearest false 1, 0, 0⟩ ∧
      ¬ ∀ (m : SystemMonitor) (call : SystemCall), call.KeptOnFailure m := by
  refine ⟨by decide +kernel, by decide +kernel, by decide +kernel, by decide +kernel,
    fun kept => ?_⟩
  have same := kept .zero (.loadAverage (exampleLoad (text "1.5 x\n"))) (by decide +kernel)
  exact absurd (congrArg SystemMonitor.loadAvg same) (by decide +kernel)

end KernelMonitor
