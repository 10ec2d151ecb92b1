import KernelMonitor.Library.PrintedColumns
import KernelMonitor.SystemRuns
import KernelMonitor.TextLines

/-! # The per-core figures

`/proc/stat` has a `cpuN` line for each processor after the aggregate. The update goes
through them in a buffer of fixed size and pushes one figure for each line that has one, so
position and processor agree only where every line is in the buffer and has a figure.
-/

namespace KernelMonitor

open Library

/-! ## A line of the file -/

theorem cpu_length : (text "cpu").length = 3 := rfl

/-- The columns up to `irq`. -/
def CpuTimes.front (t : CpuTimes) : List UInt64 :=
  [t.user, t.nice, t.system, t.idle, t.iowait, t.irq]

/-- A `cpuN` line: the number of the processor, the columns that are read, and the
    columns after them. -/
structure CoreLine where
  index : Nat
  times : CpuTimes
  more : Bytes
  indexSmall : index < 2 ^ 32
  moreEnded : Ended more
  moreFree : 10 ∉ more ∧ 0 ∉ more

namespace CoreLine

def label (core : CoreLine) : Bytes := text "cpu" ++ decimal core.index

/-- The line up to the blank before the last column that is read. -/
def toSoftirq (core : CoreLine) : Bytes :=
  core.label ++ printedColumns core.times.front [32]

/-- The line up to the end of that column. -/
def figures (core : CoreLine) : Bytes :=
  core.label ++ printedColumns (core.times.front ++ [core.times.softirq]) []

/-- The line as the kernel prints it. -/
def render (core : CoreLine) : Bytes :=
  core.label ++ printedColumns (core.times.front ++ [core.times.softirq]) core.more

/-- The counters when only `j` digits of the last column are there. -/
def cutTimes (core : CoreLine) (j : Nat) : CpuTimes :=
  { core.times with softirq := strtoul ((decimal core.times.softirq.toNat).take j) }

variable (core : CoreLine)

theorem toSoftirq_length :
    core.toSoftirq.length =
      core.label.length + ((printedColumns core.times.front []).length + 1) := by
  rw [toSoftirq, printedColumns_split, List.length_append, List.length_append]
  rfl

theorem figures_length :
    core.figures.length = core.toSoftirq.length + (decimal core.times.softirq.toNat).length := by
  rw [toSoftirq_length, figures, printedColumns_append, printedColumns_split, List.length_append,
    List.length_append, printedColumns, printedColumns, printed_length, List.length_nil]
  omega

theorem render_length : core.render.length = core.figures.length + core.more.length := by
  rw [render, figures, printedColumns_split _ core.more, List.length_append, List.length_append,
    List.length_append, Nat.add_assoc]

theorem label_length : core.label.length ≤ 13 := by
  have digits : (decimal core.index).length ≤ 10 :=
    decimal_length_le (by norm_num) (lt_trans core.indexSmall (by norm_num))
  rw [label, List.length_append, cpu_length]
  omega

/-- The line buffer has room for all that is read. -/
theorem figures_short : core.figures.length ≤ 511 := by
  have digits : ∀ n : UInt64, (decimal n.toNat).length ≤ 20 := fun n =>
    decimal_length_le (by norm_num) (lt_trans n.toNat_lt (by norm_num))
  have short := core.label_length
  have user := digits core.times.user
  have nice := digits core.times.nice
  have system := digits core.times.system
  have idle := digits core.times.idle
  have iowait := digits core.times.iowait
  have irq := digits core.times.irq
  have softirq := digits core.times.softirq
  rw [figures_length, toSoftirq_length]
  simp only [CpuTimes.front, printedColumns, printed_length, List.length_nil]
  omega

theorem label_solid : ∀ c ∈ core.label, isSpace c = false := by
  intro c member
  rcases List.mem_append.mp member with letter | digit
  · have letters : (text "cpu").all (fun c => !isSpace c) = true := rfl
    simpa using List.all_eq_true.mp letters c letter
  · exact isDigit_not_space (decimal_digits core.index c digit)

theorem label_cpu : core.label.take 3 = text "cpu" := by
  have front : (text "cpu" ++ decimal core.index).take (text "cpu").length = text "cpu" :=
    List.take_left
  rwa [cpu_length] at front

theorem label_long : 3 ≤ core.label.length := by
  rw [label, List.length_append, cpu_length]
  exact Nat.le_add_right 3 _

theorem label_ne_nil : core.label ≠ [] :=
  List.ne_nil_of_length_pos (lt_of_lt_of_le (by norm_num) core.label_long)

/-! ## Reading as much of it as is there -/

theorem cpuLineFormat_columns : cpuLineFormat = .assign (.str (some 31)) :: columnsFormat 7 := rfl

theorem sscanf_label {rest : Bytes} (ended : Ended rest) :
    sscanf cpuLineFormat (core.label ++ rest) =
      .str core.label :: sscanf (columnsFormat 7) rest := by
  have short := core.label_length
  rw [cpuLineFormat_columns, sscanf_word core.label_ne_nil core.label_solid (by omega) ended]

theorem columns_ended {rest : Bytes} :
    Ended (printedColumns (core.times.front ++ [core.times.softirq]) rest) :=
  ended_printed _ _

theorem parseCpuLine_of_short {line : Bytes} (short : (sscanf cpuLineFormat line).length < 8) :
    parseCpuLine line = none := by
  unfold parseCpuLine
  split
  · rename_i scanned
    simp [scanned] at short
  · rfl

/-- The line with another last column. -/
theorem parseCpuLine_scanned {line : Bytes} {softirq : UInt64}
    (scanned : sscanf cpuLineFormat line =
      .str core.label :: (core.times.front.map .unsigned ++ [.unsigned softirq])) :
    parseCpuLine line = some { core.times with softirq := softirq } := by
  simp only [CpuTimes.front, List.map_cons, List.map_nil, List.cons_append, List.nil_append]
    at scanned
  simp only [parseCpuLine, scanned, core.label_cpu, if_true]

theorem parse_whole {k : Nat} (whole : core.figures.length ≤ k) :
    parseCpuLine (core.render.take k) = some core.times := by
  obtain ⟨extra, rfl⟩ := Nat.exists_eq_add_of_le whole
  have parts : core.render = core.figures ++ core.more := by
    rw [render, figures, printedColumns_split _ core.more, List.append_assoc]
  have kept : core.render.take (core.figures.length + extra) =
      core.label ++ printedColumns (core.times.front ++ [core.times.softirq])
        (core.more.take extra) := by
    rw [parts, List.take_length_add_append, printedColumns_split _ (core.more.take extra), figures,
      List.append_assoc]
  have scanned : sscanf (columnsFormat 7 ++ [])
      (printedColumns (core.times.front ++ [core.times.softirq]) (core.more.take extra)) =
        (core.times.front ++ [core.times.softirq]).map .unsigned ++ [] :=
    sscanf_columns (core.times.front ++ [core.times.softirq]) (core.moreEnded.take extra)
  rw [List.append_nil, List.append_nil, List.map_append] at scanned
  apply core.parseCpuLine_scanned
  rw [kept, core.sscanf_label core.columns_ended, scanned]
  rfl

theorem parse_cut {j : Nat} (some : 0 < j)
    (inside : j ≤ (decimal core.times.softirq.toNat).length) :
    parseCpuLine (core.render.take (core.toSoftirq.length + j)) = .some (core.cutTimes j) := by
  have kept : core.render.take (core.toSoftirq.length + j) =
      core.label ++ (printedColumns (core.times.front ++ [core.times.softirq]) core.more).take
        ((printedColumns core.times.front []).length + 1 + j) := by
    rw [toSoftirq_length, render, Nat.add_assoc, List.take_length_add_append]
  apply core.parseCpuLine_scanned
  rw [kept, core.sscanf_label (core.columns_ended.take _)]
  exact congrArg _ (sscanf_columns_cut core.times.front core.times.softirq some inside)

theorem parse_short {k : Nat} (short : k ≤ core.toSoftirq.length) :
    parseCpuLine (core.render.take k) = none := by
  apply parseCpuLine_of_short
  by_cases inLabel : k ≤ core.label.length
  · have kept : core.render.take k = core.label.take k ++ [] := by
      rw [render, List.take_append_of_le_length inLabel, List.append_nil]
    cases k with
    | zero => simp [cpuLineFormat_columns, sscanf, Conversion.read, readToken]
    | succ k =>
        have nonempty : core.label.take (k + 1) ≠ [] := by
          simp [List.take_eq_nil_iff, core.label_ne_nil]
        have fits : (core.label.take (k + 1)).length ≤ 31 := by
          have size := core.label_length
          rw [List.length_take]
          omega
        have solid : ∀ c ∈ core.label.take (k + 1), isSpace c = false :=
          fun c member => core.label_solid c (List.mem_of_mem_take member)
        rw [kept, cpuLineFormat_columns, sscanf_word nonempty solid fits (by intro c; simp),
          sscanf_columns_nil]
        simp
  · obtain ⟨more, rfl⟩ := Nat.exists_eq_add_of_le (Nat.le_of_not_le inLabel)
    have kept : core.render.take (core.label.length + more) = core.label ++
        (printedColumns (core.times.front ++ [core.times.softirq]) core.more).take more := by
      rw [render, List.take_length_add_append]
    rw [toSoftirq_length] at short
    have few : (sscanf (columnsFormat 7)
        ((printedColumns (core.times.front ++ [core.times.softirq]) core.more).take more)).length
          ≤ 6 :=
      sscanf_columns_short core.times.front core.times.softirq (Nat.le_of_add_le_add_left short)
    rw [kept, core.sscanf_label (core.columns_ended.take more), List.length_cons]
    exact Nat.succ_lt_succ (Nat.lt_succ_of_le few)

end CoreLine

/-! ## The figures that are pushed -/

/-- The figure a line of counters gets; a total of zero gets none. -/
def CpuTimes.usage (t : CpuTimes) : Option Double :=
  if 0 < t.total then some (busyPercent t.total t.totalIdle) else none

def lineUsage (line : Bytes) : Option Double := (parseCpuLine line).bind CpuTimes.usage

/-- Where no `realloc` fails, the loop pushes the figures of the lines up to the first
    that does not begin with `cpu`. -/
theorem readCores_figures {grows : Nat → Bool} (always : ∀ n, grows n = true)
    (lines : List Bytes) (m : SystemMonitor) :
    (SystemMonitor.readCores grows lines m).perCoreCpuUsage =
      m.perCoreCpuUsage ++
        (lines.takeWhile fun line => line.take 3 = text "cpu").filterMap lineUsage := by
  induction lines generalizing m with
  | nil => simp [SystemMonitor.readCores]
  | cons line rest ih =>
      rw [SystemMonitor.readCores]
      by_cases cpu : line.take 3 = text "cpu"
      · rw [if_neg (not_not_intro cpu), List.takeWhile_cons_of_pos (by simpa using cpu),
          List.filterMap_cons]
        cases parsed : parseCpuLine line with
        | none => simp only [ih, lineUsage, parsed, Option.bind_none]
        | some times =>
            have pushed : ∀ usage, (m.perCorePush grows usage).perCoreCpuUsage =
                m.perCoreCpuUsage ++ [usage] := by
              intro usage
              unfold SystemMonitor.perCorePush
              rw [always, if_pos rfl]
              split <;> rfl
            simp only [lineUsage, parsed, Option.bind_some, CpuTimes.usage]
            by_cases counted : 0 < times.total
            · simp only [counted, if_true, ih, pushed, List.append_assoc, List.cons_append,
                List.nil_append]
            · simp only [counted, if_false, ih]
      · rw [if_pos cpu, List.takeWhile_cons_of_neg (by simpa using cpu)]
        simp

/-! ## The file -/

/-- The core lines, and what follows them in the file. -/
def coreText : List CoreLine → Bytes → Bytes
  | [], rest => rest
  | core :: cores, rest => core.render ++ 10 :: coreText cores rest

/-- `/proc/stat`: the aggregate line, a line for each processor, and lines of another kind. -/
structure StatFile where
  aggregate : Bytes
  cores : List CoreLine
  rest : Bytes
  aggregateFree : 10 ∉ aggregate ∧ 0 ∉ aggregate
  restOther : rest.take 3 ≠ text "cpu"
  restFree : 0 ∉ rest

def StatFile.text (file : StatFile) : Bytes :=
  file.aggregate ++ 10 :: coreText file.cores file.rest

/-- `KM_PROC_BUF_SIZE` -/
def procBufSize : Nat := 16384

/-- What is left of the buffer behind the aggregate line. -/
def StatFile.room (file : StatFile) : Nat := procBufSize - 1 - (file.aggregate.length + 1)

namespace CoreLine

variable (core : CoreLine)

theorem mem_printedColumns {columns : List UInt64} {rest : Bytes} {c : UInt8}
    (member : c ∈ printedColumns columns rest) : c = 32 ∨ isDigit c = true ∨ c ∈ rest := by
  induction columns with
  | nil => exact .inr (.inr member)
  | cons n columns ih =>
      rw [printedColumns, printed, signedDecimal_natCast] at member
      rcases List.mem_cons.mp member with blank | member
      · exact .inl blank
      · rcases List.mem_append.mp member with digit | member
        · exact .inr (.inl (decimal_digits _ c digit))
        · exact ih member

theorem render_free {c : UInt8} (other : c ≠ 32 ∧ isDigit c = false ∧ c ∉ text "cpu")
    (absent : c ∉ core.more) : c ∉ core.render := by
  intro member
  rcases List.mem_append.mp member with label | columns
  · rcases List.mem_append.mp label with letter | digit
    · exact other.2.2 letter
    · exact absurd (decimal_digits core.index c digit) (by simp [other.2.1])
  · rcases mem_printedColumns columns with blank | digit | more
    · exact other.1 blank
    · simp [other.2.1] at digit
    · exact absent more

theorem render_single : 10 ∉ core.render := core.render_free (by decide) core.moreFree.1

theorem render_nulFree : 0 ∉ core.render := core.render_free (by decide) core.moreFree.2

/-- A core line is known as one by its first three bytes. -/
theorem copy_cpu_iff (k : Nat) :
    ((core.render.take k).take 511).take 3 = text "cpu" ↔ 3 ≤ k := by
  have inLabel := core.label_long
  constructor
  · intro cpu
    have size := congrArg List.length cpu
    rw [List.take_take, List.take_take, List.length_take, cpu_length] at size
    omega
  · intro some
    have narrow : min (min 3 511) k = 3 := by omega
    rw [List.take_take, List.take_take, narrow, render, List.take_append_of_le_length inLabel,
      core.label_cpu]

/-- The figure of the line when `k` bytes of it are in the buffer. -/
def shown (k : Nat) : Option Double := lineUsage ((core.render.take k).take 511)

theorem shown_eq (k : Nat) : core.shown k = lineUsage (core.render.take (min 511 k)) := by
  rw [shown, List.take_take]

theorem shown_whole {k : Nat} (whole : core.figures.length ≤ k) :
    core.shown k = core.times.usage := by
  have fits := core.figures_short
  rw [shown_eq, lineUsage, core.parse_whole (by omega), Option.bind_some]

theorem shown_short {k : Nat} (short : k ≤ core.toSoftirq.length) : core.shown k = none := by
  rw [shown_eq, lineUsage, core.parse_short (by omega), Option.bind_none]

theorem shown_cut {j : Nat} (some : 0 < j)
    (inside : j ≤ (decimal core.times.softirq.toNat).length) :
    core.shown (core.toSoftirq.length + j) = (core.cutTimes j).usage := by
  have fits := core.figures_short
  rw [core.figures_length] at fits
  rw [shown_eq, Nat.min_eq_right (by omega), lineUsage, core.parse_cut some inside,
    Option.bind_some]

end CoreLine

/-- The figures that come out of the first `k` bytes of the core lines. -/
def coreUsages (k : Nat) (cores : List CoreLine) (rest : Bytes) : List Double :=
  ((readLines ((coreText cores rest).take k) 512).takeWhile
    fun line => line.take 3 = text "cpu").filterMap lineUsage

/-- A line that is read begins as its text does. -/
theorem readLines_cpu {cursor copy : Bytes} {copies : List Bytes}
    (read : readLines cursor 512 = copy :: copies) (cpu : copy.take 3 = text "cpu") :
    cursor.take 3 = text "cpu" := by
  cases line : readLine cursor 512 with
  | none => simp [readLines_of_none line] at read
  | some result =>
      obtain ⟨first, next⟩ := result
      rw [readLines_of_some line] at read
      have front : first <+: cursor := by
        simp only [readLine] at line
        split at line
        · cases line
        · cases line
          exact (List.take_prefix _ _).trans (List.takeWhile_prefix _)
      obtain rfl : first = copy := (List.cons.inj read).1
      have begins : text "cpu" <+: cursor := (cpu ▸ List.take_prefix 3 first).trans front
      exact (List.prefix_iff_eq_take.mp begins).symm

theorem coreUsages_nil {rest : Bytes} (other : rest.take 3 ≠ text "cpu") (k : Nat) :
    coreUsages k [] rest = [] := by
  unfold coreUsages coreText
  cases read : readLines (rest.take k) 512 with
  | nil => rfl
  | cons copy copies =>
      have foreign : ¬ copy.take 3 = text "cpu" := by
        intro cpu
        have begins := readLines_cpu read cpu
        have long : 3 ≤ k := by
          have size := congrArg List.length begins
          rw [List.take_take, List.length_take, cpu_length] at size
          omega
        rw [List.take_take, Nat.min_eq_left long] at begins
        exact other begins
      rw [List.takeWhile_cons_of_neg (by simpa using foreign), List.filterMap_nil]

theorem coreUsages_zero (cores : List CoreLine) (rest : Bytes) : coreUsages 0 cores rest = [] := by
  simp [coreUsages, readLines_nil]

/-- Each line has its figure or none, and the rest of the buffer goes to the next. -/
theorem coreUsages_cons (core : CoreLine) (cores : List CoreLine) (rest : Bytes) (k : Nat) :
    coreUsages k (core :: cores) rest =
      (core.shown k).toList ++ coreUsages (k - (core.render.length + 1)) cores rest := by
  rcases Nat.eq_zero_or_pos k with rfl | positive
  · rw [Nat.zero_sub, coreUsages_zero, coreUsages_zero, core.shown_short (Nat.zero_le _)]
    rfl
  · unfold coreUsages
    rw [coreText, readLines_take core.render_single (by decide) positive]
    by_cases some : 3 ≤ k
    · rw [List.takeWhile_cons_of_pos (by simpa using (core.copy_cpu_iff k).mpr some),
        List.filterMap_cons]
      cases usage : core.shown k with
      | none =>
          rw [CoreLine.shown] at usage
          simp only [usage, Option.toList_none, List.nil_append]
      | some figure =>
          rw [CoreLine.shown] at usage
          simp only [usage, Option.toList_some, List.cons_append, List.nil_append]
    · have inLabel := core.label_long
      have label := core.toSoftirq_length
      have wide := core.figures_length
      have whole := core.render_length
      have gone : k - (core.render.length + 1) = 0 := by omega
      rw [List.takeWhile_cons_of_neg (by simpa using mt (core.copy_cpu_iff k).mp some), gone,
        core.shown_short (by omega), List.take_zero, readLines_nil]
      rfl

/-! ## One figure for each line -/

/-- The figure is that of this line's own counters. -/
def CoreLine.Figure (core : CoreLine) (entry : Double) : Prop := core.times.usage = some entry

/-- The array has one entry for each core line, in order, each a percentage. -/
def OneEntryEach (entries : List Double) (cores : List CoreLine) : Prop :=
  List.Forall₂ (fun entry core => core.Figure entry ∧ 0 ≤ entry ∧ entry ≤ 100) entries cores

/-- The counters make a percentage: they do not add up to zero, and those that are not
    idle stay within their sum, in unsigned arithmetic and rounded. -/
def CpuTimes.Counts (t : CpuTimes) : Prop :=
  0 < t.total ∧ WithinHundred (t.total - t.totalIdle) t.total

/-- There are ticks, and the quotient of the busy ones to all has the same `double` nearest
    to it as that of other counters. -/
def CpuTimes.SharesWith (t other : CpuTimes) : Prop :=
  0 < t.total ∧ Double.nearest false (hundredfold (t.total - t.totalIdle) / round53 t.total.toNat) =
    Double.nearest false (hundredfold (other.total - other.totalIdle) / round53 other.total.toNat)

/-- The first `k` bytes of the line have all that its figure takes. A part of the last
    column will do where the quotient comes out the same, as it does without idle time. -/
def CoreLine.Fits (core : CoreLine) (k : Nat) : Prop :=
  core.figures.length ≤ k ∨
    ∃ j, 0 < j ∧ k = core.toSoftirq.length + j ∧ (core.cutTimes j).SharesWith core.times

/-- The buffer reaches far enough into the last of the lines. -/
def Reaches : Nat → List CoreLine → Prop
  | _, [] => True
  | k, [core] => core.Fits k
  | k, core :: next :: cores => Reaches (k - (core.render.length + 1)) (next :: cores)

theorem CpuTimes.usage_of_pos {t : CpuTimes} (positive : 0 < t.total) :
    t.usage = some (busyPercent t.total t.totalIdle) := if_pos positive

theorem CpuTimes.usage_eq_some {t : CpuTimes} {entry : Double} (figure : t.usage = some entry) :
    0 < t.total ∧ entry = busyPercent t.total t.totalIdle := by
  by_cases positive : 0 < t.total
  · rw [usage_of_pos positive] at figure
    exact ⟨positive, (Option.some.inj figure).symm⟩
  · simp [usage, positive] at figure

theorem CpuTimes.usage_range {t : CpuTimes} {entry : Double} (figure : t.usage = some entry) :
    (0 ≤ entry ∧ entry ≤ 100) ↔ t.Counts := by
  obtain ⟨positive, rfl⟩ := usage_eq_some figure
  rw [busyPercent, percentOf_range_iff positive]
  exact ⟨fun within => ⟨positive, within⟩, fun counts => counts.2⟩

/-- One line that is there as far as its figure goes. -/
theorem CoreLine.listed_iff (core : CoreLine) (k : Nat) :
    (∃ entry, core.shown k = some entry ∧ core.Figure entry ∧ 0 ≤ entry ∧ entry ≤ 100) ↔
      core.times.Counts ∧ core.Fits k := by
  have parts := core.figures_length
  have digits := List.length_pos_iff.mpr (decimal_ne_nil core.times.softirq.toNat)
  rcases Nat.lt_or_ge core.toSoftirq.length k with beyond | short
  · rcases Nat.lt_or_ge k core.figures.length with cut | whole
    · obtain ⟨j, rfl⟩ := Nat.exists_eq_add_of_le beyond.le
      have some : 0 < j := by omega
      have proper : j < (decimal core.times.softirq.toNat).length := by omega
      rw [core.shown_cut some proper.le]
      constructor
      · rintro ⟨entry, shown, figure, range⟩
        have counts := (CpuTimes.usage_range figure).mp range
        obtain ⟨cutCounted, cutShare⟩ := CpuTimes.usage_eq_some shown
        have share := (CpuTimes.usage_eq_some figure).2
        exact ⟨counts, .inr ⟨j, some, rfl, cutCounted, cutShare.symm.trans share⟩⟩
      · rintro ⟨counts, fits | ⟨j', _, same, cutCounted, share⟩⟩
        · omega
        · obtain rfl : j' = j := by omega
          have figure := CpuTimes.usage_of_pos counts.1
          refine ⟨_, ?_, figure, (CpuTimes.usage_range figure).mpr counts⟩
          rw [CpuTimes.usage_of_pos cutCounted]
          exact congrArg Option.some share
    · have fits : core.Fits k := .inl whole
      rw [core.shown_whole whole]
      constructor
      · rintro ⟨entry, _, figure, range⟩
        exact ⟨(CpuTimes.usage_range figure).mp range, fits⟩
      · rintro ⟨counts, _⟩
        have figure := CpuTimes.usage_of_pos counts.1
        exact ⟨_, figure, figure, (CpuTimes.usage_range figure).mpr counts⟩
  · rw [core.shown_short short]
    constructor
    · rintro ⟨entry, none, _⟩
      cases none
    · rintro ⟨_, fits | ⟨j, some, same, _⟩⟩
      · omega
      · omega

theorem not_reaches_zero (core : CoreLine) (cores : List CoreLine) :
    ¬ Reaches 0 (core :: cores) := by
  induction cores generalizing core with
  | nil =>
      have long := core.label_long
      have parts := core.figures_length
      have front := core.toSoftirq_length
      rintro (fits | ⟨j, some, same, _⟩)
      · omega
      · omega
  | cons next cores ih =>
      rw [Reaches, Nat.zero_sub]
      exact ih next

theorem coreUsages_length {rest : Bytes} (other : rest.take 3 ≠ text "cpu")
    (cores : List CoreLine) (k : Nat) : (coreUsages k cores rest).length ≤ cores.length := by
  induction cores generalizing k with
  | nil => simp [coreUsages_nil other]
  | cons core cores ih =>
      have tail := ih (k - (core.render.length + 1))
      rw [coreUsages_cons, List.length_append, List.length_cons]
      cases core.shown k <;> simp <;> omega

/-- A line without an entry leaves too few for the lines after it. -/
theorem forall₂_toList_iff {α β : Type*} {R : α → β → Prop} {first : Option α} {b : β}
    {as : List α} {bs : List β} (few : as.length ≤ bs.length) :
    List.Forall₂ R (first.toList ++ as) (b :: bs) ↔
      (∃ a, first = some a ∧ R a b) ∧ List.Forall₂ R as bs := by
  cases first with
  | none =>
      constructor
      · intro paired
        have size := paired.length_eq
        simp only [Option.toList_none, List.nil_append, List.length_cons] at size
        omega
      · rintro ⟨⟨a, none, _⟩, _⟩
        cases none
  | some a => simp

theorem oneEntryEach_iff {rest : Bytes} (other : rest.take 3 ≠ text "cpu")
    (cores : List CoreLine) (k : Nat) :
    OneEntryEach (coreUsages k cores rest) cores ↔
      (∀ core ∈ cores, core.times.Counts) ∧ Reaches k cores := by
  induction cores generalizing k with
  | nil => simp [OneEntryEach, coreUsages_nil other, Reaches]
  | cons core cores ih =>
      have few := coreUsages_length other cores (k - (core.render.length + 1))
      have tail := ih (k - (core.render.length + 1))
      unfold OneEntryEach at tail ⊢
      rw [coreUsages_cons, forall₂_toList_iff few, tail, core.listed_iff, List.forall_mem_cons]
      cases cores with
      | nil => simp [Reaches, and_comm]
      | cons next cores =>
          have whole : Reaches (k - (core.render.length + 1)) (next :: cores) → core.Fits k := by
            intro reaches
            have some : k - (core.render.length + 1) ≠ 0 := by
              intro zero
              rw [zero] at reaches
              exact not_reaches_zero next cores reaches
            have parts := core.render_length
            exact .inl (by omega)
          rw [Reaches]
          tauto

/-! ## After an update -/

namespace StatFile

theorem coreText_nulFree {rest : Bytes} (free : 0 ∉ rest) (cores : List CoreLine) :
    0 ∉ coreText cores rest := by
  induction cores with
  | nil => exact free
  | cons core cores ih => simp [coreText, core.render_nulFree, ih]

variable (file : StatFile)

theorem text_nulFree : 0 ∉ file.text := by
  have cores := coreText_nulFree file.restFree file.cores
  simp [text, file.aggregateFree.2, cores]

/-- What the update finds in its buffer. -/
theorem cString_buffer :
    cString (file.text.take (procBufSize - 1)) = file.text.take (procBufSize - 1) := by
  apply List.takeWhile_eq_self_iff.mpr
  intro c member
  have differs : c ≠ 0 := fun nul => file.text_nulFree (nul ▸ List.mem_of_mem_take member)
  simpa using differs

theorem readLine_buffer :
    readLine (file.text.take (procBufSize - 1)) 512 =
      some ((file.aggregate.take (procBufSize - 1)).take 511,
        (coreText file.cores file.rest).take file.room) :=
  readLine_take file.aggregateFree.1 (by decide) (by decide)

/-- A successful update leaves the figures of the core lines in the buffer, whatever the
    array held before. -/
theorem updateCpuStats_cores {m : SystemMonitor} {reads : SystemReads}
    (buffered : reads.stat = some (file.text.take (procBufSize - 1)))
    (always : ∀ n, reads.growCores n = true) (success : (m.updateCpuStats reads).1 = true) :
    (m.updateCpuStats reads).2.perCoreCpuUsage = coreUsages file.room file.cores file.rest := by
  simp only [SystemMonitor.updateCpuStats, buffered, file.cString_buffer, file.readLine_buffer]
    at success ⊢
  cases parsed : parseCpuLine ((file.aggregate.take (procBufSize - 1)).take 511) with
  | none => simp [parsed] at success
  | some times => simp only [readCores_figures always, List.nil_append, coreUsages]

end StatFile

/-- After a successful update the array has one percentage for each `cpuN` line, in the
    order of the lines, exactly where the counters of every line make a percentage and the
    buffer holds the last of the lines as far as its figure goes. -/
theorem core_entries_iff {file : StatFile} {m : SystemMonitor} {reads : SystemReads}
    (buffered : reads.stat = some (file.text.take (procBufSize - 1)))
    (always : ∀ n, reads.growCores n = true) (success : (m.updateCpuStats reads).1 = true) :
    OneEntryEach (m.updateCpuStats reads).2.perCoreCpuUsage file.cores ↔
      (∀ core ∈ file.cores, core.times.Counts) ∧ Reaches file.room file.cores := by
  rw [file.updateCpuStats_cores buffered always success]
  exact oneEntryEach_iff file.restOther file.cores file.room

/-! Two processors, of which the first has not counted anything yet. -/

def exampleCoreLine (index : Nat) (small : index < 2 ^ 32) (times : CpuTimes) : CoreLine where
  index := index
  times := times
  more := text " 0 0 0"
  indexSmall := small
  moreEnded := by intro c first; cases first; rfl
  moreFree := by decide

def exampleStatFile (first second : CpuTimes) : StatFile where
  aggregate := text "cpu  10 0 0 10 0 0 0 0 0 0"
  cores := [exampleCoreLine 0 (by decide) first, exampleCoreLine 1 (by decide) second]
  rest := text "intr 7\n"
  aggregateFree := by decide
  restOther := by decide
  restFree := by decide

def exampleUncounted : StatFile := exampleStatFile ⟨0, 0, 0, 0, 0, 0, 0⟩ ⟨10, 0, 0, 10, 0, 0, 0⟩

theorem core_skipped :
    let reads := exampleStatReads (exampleUncounted.text.take (procBufSize - 1))
    (SystemMonitor.zero.updateCpuStats reads).1 = true ∧
      (SystemMonitor.zero.updateCpuStats reads).2.perCoreCpuUsage = [50] ∧
      ¬ OneEntryEach (SystemMonitor.zero.updateCpuStats reads).2.perCoreCpuUsage
        exampleUncounted.cores := by
  have single : (SystemMonitor.zero.updateCpuStats (exampleStatReads
      (exampleUncounted.text.take (procBufSize - 1)))).2.perCoreCpuUsage = [50] := by
    decide +kernel
  refine ⟨by decide +kernel, single, fun each => ?_⟩
  have size := each.length_eq
  rw [single] at size
  exact absurd size (by decide)

def exampleCounted : StatFile := exampleStatFile ⟨5, 0, 0, 15, 0, 0, 0⟩ ⟨10, 0, 0, 10, 0, 0, 0⟩

theorem core_entries_example :
    OneEntryEach (SystemMonitor.zero.updateCpuStats
        (exampleStatReads (exampleCounted.text.take (procBufSize - 1)))).2.perCoreCpuUsage
      exampleCounted.cores := by
  have counts : ∀ core ∈ exampleCounted.cores, core.times.Counts := by
    intro core member
    rcases List.mem_cons.mp member with rfl | member
    · exact ⟨by decide, by decide +kernel⟩
    · obtain rfl := List.mem_singleton.mp member
      exact ⟨by decide, by decide +kernel⟩
  have reaches : Reaches exampleCounted.room exampleCounted.cores := .inl (by decide +kernel)
  exact (core_entries_iff rfl (fun _ => rfl) (by decide +kernel)).mpr ⟨counts, reaches⟩

end KernelMonitor
