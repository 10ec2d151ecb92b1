import KernelMonitor.Library.LabelledRun
import KernelMonitor.SweepLoop

/-! # The published sample stays in PID order

The order is made by the `qsort` of the PID list, survives skipped PIDs and an
early end of the loop, and changes hands with the buffer swap. `Valid` is the
invariant of the calls; the binary search is right wherever it holds.
-/

namespace KernelMonitor

open Library

/-- What holds of a monitor between calls. -/
structure ProcessMonitor.Valid (m : ProcessMonitor) : Prop where
  cells : m.processes.cells.length = m.capacity
  count : m.count ≤ m.capacity
  scratch : ScratchFits m
  sampleSorted : KeySorted ProcessInfo.pid m.sample
  builtSorted : KeySorted ProcessInfo.pid m.built
  processesNull : m.processes.addr = 0 → m.capacity = 0
  incomingNull : m.incoming.addr = 0 → m.incomingCapacity = 0
  distinct : m.processes.addr = m.incoming.addr → m.processes.addr = 0

/-- The kernel and the allocator keep their promises: a PID is listed once and
    fits `pid_t`, and `realloc` never hands out the block of the current sample. -/
structure Sweep.Lawful (w : Sweep) (m : ProcessMonitor) : Prop where
  listing : ∀ entries, w.dir = some entries → ListsEachOnce entries
  fresh : ∀ pid grown, w.growIncoming pid = some grown →
    grown.addr ≠ 0 ∧ grown.addr ≠ m.processes.addr

/-! ## Runs of calls -/

inductive MonitorCall where
  | collect (w : Sweep)
  | publish (time : Stamps)
  | update (w : Sweep) (time : Stamps)

namespace MonitorCall

def apply : MonitorCall → ProcessMonitor → ProcessMonitor
  | .collect w, m => KernelMonitor.collect w m
  | .publish time, m => KernelMonitor.publish time m
  | .update w time, m => KernelMonitor.update w time m

def Lawful : MonitorCall → ProcessMonitor → Prop
  | .collect w, m | .update w _, m => w.Lawful m
  | .publish _, _ => True

end MonitorCall

/-- Any number of calls in any order, from a fresh monitor. -/
def monitorSystem (host : Host) : LabelledSystem ProcessMonitor MonitorCall where
  Init m := m = .init host
  Step m call m' := call.Lawful m ∧ m' = call.apply m

/-- The arguments of one `km_process_monitor_update`. -/
structure Tick where
  sweep : Sweep
  time : Stamps

/-- Runs of updates whose sweeps are all allowed. -/
def updateSystem (host : Host) (Allowed : Sweep → ProcessMonitor → Prop) :
    LabelledSystem ProcessMonitor Tick where
  Init m := m = .init host
  Step m tick m' := tick.sweep.Lawful m ∧ Allowed tick.sweep m ∧
    m' = update tick.sweep tick.time m

/-! ## What a publish changes -/

theorem detectCreated_frame (time : Stamps) (m : ProcessMonitor) (proc : ProcessInfo) :
    ∃ events, detectCreated time m proc = { m with events := events } := by
  unfold detectCreated
  cases findIn m.processes.cells m.count proc.pid with
  | none => exact ⟨_, rfl⟩
  | some i => exact ⟨m.events, rfl⟩

theorem detectTerminated_frame (time : Stamps) (m : ProcessMonitor) (proc : ProcessInfo) :
    ∃ events, detectTerminated time m proc = { m with events := events } := by
  unfold detectTerminated
  cases findIn m.incoming.cells m.incomingCount proc.pid with
  | none => exact ⟨_, rfl⟩
  | some i => exact ⟨m.events, rfl⟩

theorem foldl_events_frame {step : ProcessMonitor → ProcessInfo → ProcessMonitor}
    (frame : ∀ m proc, ∃ events, step m proc = { m with events := events })
    (procs : List ProcessInfo) (m : ProcessMonitor) :
    ∃ events, procs.foldl step m = { m with events := events } := by
  induction procs generalizing m with
  | nil => exact ⟨m.events, rfl⟩
  | cons proc procs ih =>
      obtain ⟨first, here⟩ := frame m proc
      obtain ⟨later, rest⟩ := ih { m with events := first }
      exact ⟨later, by rw [List.foldl_cons, here, rest]⟩

/-- `detect_changes` adds events and touches nothing else. -/
theorem detectChanges_frame (time : Stamps) (m : ProcessMonitor) :
    ∃ events, detectChanges time m = { m with events := events } := by
  obtain ⟨first, created⟩ := foldl_events_frame (detectCreated_frame time) m.built m
  obtain ⟨later, terminated⟩ := foldl_events_frame (detectTerminated_frame time) m.sample
    { m with events := first }
  refine ⟨later, ?_⟩
  have same : ProcessMonitor.sample { m with events := first } = m.sample := rfl
  simp only [detectChanges, created, same, terminated]

/-- `publish` exchanges the buffers. -/
theorem publish_swap (time : Stamps) (m : ProcessMonitor) :
    ∃ events, publish time m = { m with
      events := events
      processes := m.incoming
      count := m.incomingCount
      capacity := m.incomingCapacity
      incoming := m.processes
      incomingCapacity := m.capacity
      incomingCount := 0 } := by
  obtain ⟨events, detected⟩ := detectChanges_frame time m
  exact ⟨events, by simp only [publish, detected]⟩

theorem publish_sample (time : Stamps) (m : ProcessMonitor) :
    (publish time m).sample = m.built := by
  obtain ⟨events, swapped⟩ := publish_swap time m
  rw [swapped]
  rfl

theorem publish_built (time : Stamps) (m : ProcessMonitor) : (publish time m).built = [] := by
  obtain ⟨events, swapped⟩ := publish_swap time m
  rw [swapped]
  exact List.take_zero

/-! ## The invariant -/

theorem init_valid (host : Host) : (ProcessMonitor.init host).Valid where
  cells := rfl
  count := le_rfl
  scratch := ⟨rfl, le_rfl⟩
  sampleSorted := .nil
  builtSorted := .nil
  processesNull _ := rfl
  incomingNull _ := rfl
  distinct _ := rfl

theorem filterMap_entry_sorted (m : ProcessMonitor) (w : Sweep) (seconds : ℚ) {pids : List Int}
    (sorted : pids.Pairwise (· < ·)) :
    KeySorted ProcessInfo.pid (pids.filterMap (m.entry w seconds)) := by
  refine sorted.filterMap _ fun p q less a madeA b madeB => ?_
  rw [entry_pid madeA, entry_pid madeB]
  exact less

theorem sweptPids_sorted {w : Sweep} (m : ProcessMonitor)
    (listing : ∀ entries, w.dir = some entries → ListsEachOnce entries) :
    (sweptPids w m).Pairwise (· < ·) :=
  (listPids_sorted listing).sublist (reached_isPrefix _ _ _ _).sublist

theorem collect_valid {w : Sweep} {m : ProcessMonitor} (valid : m.Valid) (lawful : w.Lawful m) :
    (collect w m).Valid := by
  obtain ⟨processes, count, capacity, _⟩ := collect_frame w m
  obtain ⟨fits, built⟩ := collect_built w valid.scratch.cells
  have moved := collect_addr w m
  refine
    { cells := by rw [processes, capacity]; exact valid.cells
      count := by rw [count, capacity]; exact valid.count
      scratch := fits
      sampleSorted := collect_sample w m ▸ valid.sampleSorted
      builtSorted := built ▸ filterMap_entry_sorted m w _ (sweptPids_sorted m lawful.listing)
      processesNull := by rw [processes, capacity]; exact valid.processesNull
      incomingNull := ?_
      distinct := ?_ }
  · intro null
    rcases moved with stayed | ⟨pid, grown, grows, there⟩
    · rw [stayed.2]
      exact valid.incomingNull (stayed.1.symm.trans null)
    · exact absurd (there.symm.trans null) (lawful.fresh pid grown grows).1
  · rw [processes]
    intro same
    rcases moved with stayed | ⟨pid, grown, grows, there⟩
    · exact valid.distinct (same.trans stayed.1)
    · exact absurd (same.trans there).symm (lawful.fresh pid grown grows).2

theorem publish_valid (time : Stamps) {m : ProcessMonitor} (valid : m.Valid) :
    (publish time m).Valid := by
  have sample := publish_sample time m
  have built := publish_built time m
  obtain ⟨events, swapped⟩ := publish_swap time m
  refine
    { cells := by rw [swapped]; exact valid.scratch.cells
      count := by rw [swapped]; exact valid.scratch.count
      scratch := by rw [swapped]; exact ⟨valid.cells, Nat.zero_le _⟩
      sampleSorted := sample ▸ valid.builtSorted
      builtSorted := built ▸ .nil
      processesNull := by rw [swapped]; exact valid.incomingNull
      incomingNull := by rw [swapped]; exact valid.processesNull
      distinct := ?_ }
  rw [swapped]
  intro same
  exact same.trans (valid.distinct same.symm)

theorem MonitorCall.apply_valid {call : MonitorCall} {m : ProcessMonitor} (valid : m.Valid)
    (lawful : call.Lawful m) : (call.apply m).Valid := by
  cases call with
  | collect w => exact collect_valid valid lawful
  | publish time => exact publish_valid time valid
  | update w time => exact publish_valid time (collect_valid valid lawful)

theorem reachable_valid {host : Host} {m : ProcessMonitor}
    (reachable : (monitorSystem host).Reachable m) : m.Valid := by
  apply reachable.invariant
  · intro m start
    subst start
    exact init_valid host
  · intro m call next step valid
    obtain ⟨lawful, rfl⟩ := step
    exact MonitorCall.apply_valid valid lawful

theorem updates_valid {host : Host} {Allowed : Sweep → ProcessMonitor → Prop} {trace : List Tick}
    {m : ProcessMonitor} (history : (updateSystem host Allowed).Trace trace m) : m.Valid := by
  have reachable : (updateSystem host Allowed).Reachable m := ⟨trace, history⟩
  apply reachable.invariant
  · intro m start
    subst start
    exact init_valid host
  · intro m tick next step valid
    obtain ⟨lawful, _, rfl⟩ := step
    exact publish_valid tick.time (collect_valid valid lawful)

/-! ## The lookup -/

theorem ProcessMonitor.Valid.sample_length {m : ProcessMonitor} (valid : m.Valid) :
    m.sample.length = m.count := by
  rw [ProcessMonitor.sample, List.length_take, valid.cells, Nat.min_eq_left valid.count]

theorem findIn_sound {cells : List ProcessInfo} {n : Nat} {pid : Int} {i : Nat}
    (found : findIn cells n pid = some i) :
    ∃ info, cells[i]? = some info ∧ info ∈ cells.take n ∧ info.pid = pid := by
  obtain ⟨_, below, info, atI, same⟩ := keyedSearch_sound found
  refine ⟨info, atI, List.mem_iff_getElem?.mpr ⟨i, ?_⟩, same⟩
  rw [List.getElem?_take_of_lt below, atI]

/-- The search misses exactly the PIDs that are not there. -/
theorem findIn_none_iff {cells : List ProcessInfo} {n : Nat} {pid : Int}
    (sorted : KeySorted ProcessInfo.pid (cells.take n)) (fits : n ≤ cells.length) :
    findIn cells n pid = none ↔ pid ∉ (cells.take n).map ProcessInfo.pid := by
  rw [findIn, keyedSearch_eq_none_iff sorted fits, List.mem_map]
  push Not
  rfl

/-- What the lookup returns is an entry of the sample, whatever its order. -/
theorem ProcessMonitor.find_sound {m : ProcessMonitor} {pid : Int} {info : ProcessInfo}
    (found : m.find pid = some info) : info ∈ m.sample ∧ info.pid = pid := by
  obtain ⟨i, located, atI⟩ := Option.bind_eq_some_iff.mp found
  obtain ⟨other, atI', member, same⟩ := findIn_sound located
  obtain rfl := Option.some.inj (atI.symm.trans atI')
  exact ⟨member, same⟩

theorem ProcessMonitor.Valid.find_iff {m : ProcessMonitor} (valid : m.Valid) {pid : Int}
    {info : ProcessInfo} : m.find pid = some info ↔ info ∈ m.sample ∧ info.pid = pid := by
  have fits : m.count ≤ m.processes.cells.length := valid.cells ▸ valid.count
  constructor
  · exact ProcessMonitor.find_sound
  · intro known
    obtain ⟨member, same⟩ := known
    obtain ⟨i, atI⟩ := List.mem_iff_getElem?.mp member
    have below : i < m.count := valid.sample_length ▸ (List.getElem?_eq_some_iff.mp atI).1
    rw [ProcessMonitor.sample, List.getElem?_take_of_lt below] at atI
    have located : findIn m.processes.cells m.count pid = some i :=
      (keyedSearch_eq_some_iff valid.sampleSorted fits).mpr ⟨below, info, atI, same⟩
    rw [ProcessMonitor.find, located, Option.bind_some, atI]

theorem ProcessMonitor.Valid.find_none_iff {m : ProcessMonitor} (valid : m.Valid) {pid : Int} :
    m.find pid = none ↔ pid ∉ m.sample.map ProcessInfo.pid := by
  rw [← not_iff_not, not_not, ← ne_eq, Option.ne_none_iff_exists', List.mem_map]
  exact exists_congr fun info => valid.find_iff

/-- Two live blocks, unless nothing was allocated yet. -/
theorem ProcessMonitor.Valid.buffers_distinct {m : ProcessMonitor} (valid : m.Valid) :
    m.processes.addr ≠ m.incoming.addr ∨ m.processes = .null ∧ m.incoming = .null := by
  by_cases same : m.processes.addr = m.incoming.addr
  · right
    have null := valid.distinct same
    have empty : m.processes.cells = [] :=
      List.eq_nil_of_length_eq_zero (valid.cells.trans (valid.processesNull null))
    have scratch : m.incoming.cells = [] :=
      List.eq_nil_of_length_eq_zero
        (valid.scratch.cells.trans (valid.incomingNull (same ▸ null)))
    constructor
    · cases blk : m.processes
      simp_all [Block.null]
    · cases blk : m.incoming
      simp_all [Block.null]
  · exact .inl same

/-- In every reachable state the sample is strictly increasing in PID, the counts
    fit, the two buffers are different blocks (before the first allocation there
    is no block at all), and a lookup finds exactly the entries of the sample. -/
theorem reachable_sample_lookup {host : Host} {m : ProcessMonitor}
    (reachable : (monitorSystem host).Reachable m) :
    (m.sample.map ProcessInfo.pid).Pairwise (· < ·) ∧ m.sample.length = m.count ∧
      m.count ≤ m.capacity ∧ m.incomingCount ≤ m.incomingCapacity ∧
      (m.processes.addr ≠ m.incoming.addr ∨ m.processes = .null ∧ m.incoming = .null) ∧
      ∀ pid, (∀ info, m.find pid = some info ↔ info ∈ m.sample ∧ info.pid = pid) ∧
        (m.find pid = none ↔ pid ∉ m.sample.map ProcessInfo.pid) := by
  have valid := reachable_valid reachable
  exact ⟨keySorted_iff_map.mp valid.sampleSorted, valid.sample_length, valid.count,
    valid.scratch.count, valid.buffers_distinct, fun pid =>
      ⟨fun info => valid.find_iff, valid.find_none_iff⟩⟩

/-! A first update on a small machine: 7 is listed and gone before it is read. -/

def exampleHost : Host := ⟨4096, 100, some 50, 1000⟩

def exampleStat : Bytes := text "3 (sh) S 1 3 3 34816 3 0 20 0 1 0 40 2 0 0 20 0 1 0 5 0"

def unreadable : PidFiles := ⟨none, none, none, none, none, none⟩

def exampleSweep : Sweep where
  dir := some [⟨text "12", true⟩, ⟨text "uptime", false⟩, ⟨text "3", true⟩, ⟨text "7", true⟩]
  growPids _ := true
  files pid := if pid = 7 then unreadable else { unreadable with stat := some exampleStat }
  growIncoming _ := some ⟨1, fun _ => .zero⟩
  now := ⟨10, 0⟩
  done := ⟨10, 5000000⟩

def exampleStamps : Stamps := fun _ _ => 1000

theorem exampleSweep_lawful : exampleSweep.Lawful (.init exampleHost) where
  listing := by
    rintro _ ⟨rfl⟩
    exact ⟨by decide +kernel, by decide +kernel⟩
  fresh := by
    rintro pid _ ⟨rfl⟩
    decide

theorem example_reachable :
    (monitorSystem exampleHost).Reachable
      (update exampleSweep exampleStamps (.init exampleHost)) := by
  have step : (monitorSystem exampleHost).Step (.init exampleHost)
      (.update exampleSweep exampleStamps)
      (update exampleSweep exampleStamps (.init exampleHost)) := ⟨exampleSweep_lawful, rfl⟩
  exact ⟨[_], _, rfl, .single step⟩

theorem reachable_sample_lookup_example :
    (update exampleSweep exampleStamps (.init exampleHost)).sample.map ProcessInfo.pid = [3, 12] ∧
      ∀ pid, (update exampleSweep exampleStamps (.init exampleHost)).find pid = none ↔
        pid ∉ (update exampleSweep exampleStamps (.init exampleHost)).sample.map ProcessInfo.pid :=
  ⟨by decide +kernel, fun pid => ((reachable_sample_lookup example_reachable).2.2.2.2.2 pid).2⟩

end KernelMonitor
