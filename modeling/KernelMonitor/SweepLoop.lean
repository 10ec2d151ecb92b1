import KernelMonitor.ProcessMonitor

/-! # What one sweep does to the monitor

The loop of `collect` writes to the scratch buffer and to nothing else, and what
it builds there is one entry for every PID it got to and could read. Everything
later uses these facts; no later proof unfolds the loop.
-/

namespace KernelMonitor

open Library

/-- The two states differ at most in the scratch buffer. -/
structure ScratchOnly (before after : ProcessMonitor) : Prop where
  processes : after.processes = before.processes
  count : after.count = before.count
  capacity : after.capacity = before.capacity
  events : after.events = before.events
  pids : after.pids = before.pids
  constants : after.constants = before.constants
  lastSample : after.lastSample = before.lastSample
  haveLastSample : after.haveLastSample = before.haveLastSample
  lastScanMs : after.lastScanMs = before.lastScanMs

namespace ScratchOnly

theorem refl (m : ProcessMonitor) : ScratchOnly m m := ⟨rfl, rfl, rfl, rfl, rfl, rfl, rfl, rfl, rfl⟩

theorem trans {a b c : ProcessMonitor} (first : ScratchOnly a b) (second : ScratchOnly b c) :
    ScratchOnly a c where
  processes := second.processes.trans first.processes
  count := second.count.trans first.count
  capacity := second.capacity.trans first.capacity
  events := second.events.trans first.events
  pids := second.pids.trans first.pids
  constants := second.constants.trans first.constants
  lastSample := second.lastSample.trans first.lastSample
  haveLastSample := second.haveLastSample.trans first.haveLastSample
  lastScanMs := second.lastScanMs.trans first.lastScanMs

variable {before after : ProcessMonitor}

theorem sample (only : ScratchOnly before after) : after.sample = before.sample := by
  simp only [ProcessMonitor.sample, only.processes, only.count]

theorem find (only : ScratchOnly before after) (pid : Int) : after.find pid = before.find pid := by
  simp only [ProcessMonitor.find, only.processes, only.count]

theorem visible (only : ScratchOnly before after) : after.visible = before.visible := by
  simp only [ProcessMonitor.visible, only.sample, only.events, only.lastScanMs]

end ScratchOnly

/-- The scratch buffer has as many cells as its capacity says, and the count fits. -/
structure ScratchFits (m : ProcessMonitor) : Prop where
  cells : m.incoming.cells.length = m.incomingCapacity
  count : m.incomingCount ≤ m.incomingCapacity

/-! ## Reserving a slot -/

theorem incomingReserve_scratchOnly {grow : Option Grown} {m m' : ProcessMonitor}
    (reserved : incomingReserve grow m = some m') : ScratchOnly m m' := by
  unfold incomingReserve at reserved
  split at reserved
  · cases grow with
    | none => cases reserved
    | some grown =>
        cases reserved
        exact ⟨rfl, rfl, rfl, rfl, rfl, rfl, rfl, rfl, rfl⟩
  · cases reserved
    exact .refl m

theorem resize_take (block : Block) (grown : Grown) {n newCap : Nat}
    (within : n ≤ block.cells.length) (fits : n ≤ newCap) :
    (block.resize grown newCap).cells.take n = block.cells.take n := by
  apply List.ext_getElem?
  intro i
  by_cases small : i < n
  · have inside : i < block.cells.length := by omega
    have listed : i < newCap := by omega
    simp [Block.resize, small, List.getElem?_eq_getElem inside, listed]
  · simp [small]

/-- A successful reserve leaves the entries built so far and room for one more. -/
theorem incomingReserve_room {grow : Option Grown} {m m' : ProcessMonitor} (fits : ScratchFits m)
    (reserved : incomingReserve grow m = some m') :
    ScratchFits m' ∧ m'.incomingCount = m.incomingCount ∧ m'.built = m.built ∧
      m'.incomingCount < m'.incomingCapacity := by
  obtain ⟨cells, count⟩ := fits
  unfold incomingReserve at reserved
  split at reserved
  · rename_i full
    cases grow with
    | none => cases reserved
    | some grown =>
        cases reserved
        have room : m.incomingCount < grownCapacity 512 m.incomingCapacity :=
          full ▸ lt_grownCapacity (by norm_num)
        have inside : m.incomingCount ≤ m.incoming.cells.length := by omega
        exact ⟨⟨by simp [Block.resize], room.le⟩, rfl, resize_take _ grown inside room.le, room⟩
  · cases reserved
    exact ⟨⟨cells, count⟩, rfl, rfl, by omega⟩

/-- The scratch buffer stays as large as it was, where it was, or `realloc` put it
    somewhere. -/
def Stayed (before after : ProcessMonitor) : Prop :=
  after.incoming.addr = before.incoming.addr ∧ after.incomingCapacity = before.incomingCapacity

theorem incomingReserve_addr {grow : Option Grown} {m m' : ProcessMonitor}
    (reserved : incomingReserve grow m = some m') :
    Stayed m m' ∨ ∃ grown, grow = some grown ∧ m'.incoming.addr = grown.addr := by
  unfold incomingReserve at reserved
  split at reserved
  · cases grow with
    | none => cases reserved
    | some grown =>
        cases reserved
        exact .inr ⟨grown, rfl, rfl⟩
  · cases reserved
    exact .inl ⟨rfl, rfl⟩

theorem incomingReserve_isSome (grown : Grown) (m : ProcessMonitor) :
    ∃ m', incomingReserve (some grown) m = some m' := by
  unfold incomingReserve
  split
  · exact ⟨_, rfl⟩
  · exact ⟨m, rfl⟩

/-! ## Filling a slot -/

/-- The `memset` makes the old contents of the slot irrelevant. -/
theorem readProcessInfo_slot (c : Constants) (pid : Int) (files : PidFiles)
    (slot other : ProcessInfo) :
    readProcessInfo c pid files slot = readProcessInfo c pid files other := rfl

/-- The entry a sweep makes of a PID, if its `stat` file can be read and parsed. -/
def ProcessMonitor.entry (m : ProcessMonitor) (w : Sweep) (seconds : ℚ) (pid : Int) :
    Option ProcessInfo :=
  let (read, info) := readProcessInfo m.constants pid (w.files pid) .zero
  if read then some (m.withRates seconds pid info) else none

theorem ScratchOnly.entry {before after : ProcessMonitor} (only : ScratchOnly before after)
    (w : Sweep) (seconds : ℚ) : after.entry w seconds = before.entry w seconds := by
  funext pid
  simp only [ProcessMonitor.entry, ProcessMonitor.withRates, only.constants, only.find]

theorem readProcessInfo_pid (c : Constants) (pid : Int) (files : PidFiles) (slot : ProcessInfo) :
    (readProcessInfo c pid files slot).2.pid = pid := by
  unfold readProcessInfo
  cases files.stat with
  | none => rfl
  | some buf =>
      dsimp only
      cases (parseProcStat (cString buf) commMax).1 <;>
        cases (parseProcStat (cString buf) commMax).2 <;>
        simp only [setStartTime, readFds, readExe, readCmdline, readUid, readMemory,
          ProcessInfo.takeStat] <;>
        repeat' split
      all_goals rfl

theorem withRates_pid (m : ProcessMonitor) (seconds : ℚ) (pid : Int) (info : ProcessInfo) :
    (m.withRates seconds pid info).pid = info.pid := by
  unfold ProcessMonitor.withRates calculateFaultRates calculateCpuUsage
  cases m.find pid with
  | none => rfl
  | some previous =>
      dsimp only
      repeat' split
      all_goals rfl

theorem entry_pid {m : ProcessMonitor} {w : Sweep} {seconds : ℚ} {pid : Int} {info : ProcessInfo}
    (made : m.entry w seconds pid = some info) : info.pid = pid := by
  simp only [ProcessMonitor.entry] at made
  split at made
  · rw [← Option.some.inj made, withRates_pid, readProcessInfo_pid]
  · cases made

theorem collectPid_scratchOnly (w : Sweep) (seconds : ℚ) (pid : Int) (m : ProcessMonitor) :
    ScratchOnly m (collectPid w seconds pid m) := by
  simp only [collectPid]
  split <;> exact ⟨rfl, rfl, rfl, rfl, rfl, rfl, rfl, rfl, rfl⟩

theorem collectPid_addr (w : Sweep) (seconds : ℚ) (pid : Int) (m : ProcessMonitor) :
    Stayed m (collectPid w seconds pid m) := by
  simp only [collectPid]
  split <;> exact ⟨rfl, rfl⟩

/-- With room for it, the slot is appended exactly when the read succeeded. -/
theorem collectPid_built (w : Sweep) (seconds : ℚ) (pid : Int) {m : ProcessMonitor}
    (fits : ScratchFits m) (room : m.incomingCount < m.incomingCapacity) :
    ScratchFits (collectPid w seconds pid m) ∧
      (collectPid w seconds pid m).built = m.built ++ (m.entry w seconds pid).toList := by
  have inside : m.incomingCount < m.incoming.cells.length := fits.cells ▸ room
  rw [collectPid, ProcessMonitor.entry,
    readProcessInfo_slot m.constants pid (w.files pid) m.nextSlot .zero]
  rcases readProcessInfo m.constants pid (w.files pid) .zero with ⟨read, info⟩
  cases read with
  | false =>
      refine ⟨⟨?_, fits.count⟩, ?_⟩
      · simpa [ProcessMonitor.writeSlot] using fits.cells
      · simp [ProcessMonitor.writeSlot, ProcessMonitor.built, List.take_set_of_le]
  | true =>
      refine ⟨⟨?_, ?_⟩, ?_⟩
      · simpa [ProcessMonitor.writeSlot] using fits.cells
      · exact room
      · simp [ProcessMonitor.writeSlot, ProcessMonitor.built, List.take_add_one, inside,
          List.take_set_of_le]

/-! ## The loop -/

/-- The PIDs the loop gets to: it stops at the first failed reserve. -/
def reached (w : Sweep) (seconds : ℚ) : List Int → ProcessMonitor → List Int
  | [], _ => []
  | pid :: rest, m =>
      match incomingReserve (w.growIncoming pid) m with
      | none => []
      | some m => pid :: reached w seconds rest (collectPid w seconds pid m)

theorem reached_isPrefix (w : Sweep) (seconds : ℚ) (pids : List Int) (m : ProcessMonitor) :
    (reached w seconds pids m) <+: pids := by
  induction pids generalizing m with
  | nil => exact List.prefix_refl _
  | cons pid rest ih =>
      simp only [reached]
      cases incomingReserve (w.growIncoming pid) m with
      | none => exact List.nil_prefix
      | some m => exact (List.prefix_cons_inj pid).mpr (ih _)

theorem reached_all {w : Sweep} {seconds : ℚ} {pids : List Int}
    (always : ∀ pid ∈ pids, (w.growIncoming pid).isSome) (m : ProcessMonitor) :
    reached w seconds pids m = pids := by
  induction pids generalizing m with
  | nil => rfl
  | cons pid rest ih =>
      obtain ⟨grown, grows⟩ := Option.isSome_iff_exists.mp (always pid List.mem_cons_self)
      obtain ⟨m', reserved⟩ := incomingReserve_isSome grown m
      simp only [reached, grows, reserved]
      rw [ih fun p member => always p (List.mem_cons_of_mem _ member)]

theorem collectLoop_scratchOnly (w : Sweep) (seconds : ℚ) (pids : List Int) (m : ProcessMonitor) :
    ScratchOnly m (collectLoop w seconds pids m) := by
  induction pids generalizing m with
  | nil => exact .refl m
  | cons pid rest ih =>
      simp only [collectLoop]
      cases reserved : incomingReserve (w.growIncoming pid) m with
      | none => exact .refl m
      | some m' =>
          exact (incomingReserve_scratchOnly reserved).trans
            ((collectPid_scratchOnly w seconds pid m').trans (ih _))

theorem collectLoop_addr (w : Sweep) (seconds : ℚ) (pids : List Int) (m : ProcessMonitor) :
    Stayed m (collectLoop w seconds pids m) ∨
      ∃ pid grown, w.growIncoming pid = some grown ∧
        (collectLoop w seconds pids m).incoming.addr = grown.addr := by
  induction pids generalizing m with
  | nil => exact .inl ⟨rfl, rfl⟩
  | cons pid rest ih =>
      simp only [collectLoop]
      cases reserved : incomingReserve (w.growIncoming pid) m with
      | none => exact .inl ⟨rfl, rfl⟩
      | some m' =>
          have filled := collectPid_addr w seconds pid m'
          rcases ih (collectPid w seconds pid m') with same | moved
          · rcases incomingReserve_addr reserved with kept | ⟨grown, grows, moved⟩
            · exact .inl ⟨same.1.trans (filled.1.trans kept.1),
                same.2.trans (filled.2.trans kept.2)⟩
            · exact .inr ⟨pid, grown, grows, same.1.trans (filled.1.trans moved)⟩
          · exact .inr moved

/-- The loop appends the entry of every PID it got to and could read. -/
theorem collectLoop_built (w : Sweep) (seconds : ℚ) (pids : List Int) {m : ProcessMonitor}
    (fits : ScratchFits m) :
    ScratchFits (collectLoop w seconds pids m) ∧
      (collectLoop w seconds pids m).built =
        m.built ++ (reached w seconds pids m).filterMap (m.entry w seconds) := by
  induction pids generalizing m with
  | nil => exact ⟨fits, by simp [collectLoop, reached]⟩
  | cons pid rest ih =>
      simp only [collectLoop, reached]
      cases reserved : incomingReserve (w.growIncoming pid) m with
      | none => exact ⟨fits, by simp⟩
      | some m' =>
          obtain ⟨fits', _, built, room⟩ := incomingReserve_room fits reserved
          obtain ⟨filled, appended⟩ := collectPid_built w seconds pid fits' room
          obtain ⟨looped, rest⟩ := ih filled
          have sameHere := (incomingReserve_scratchOnly reserved).entry w seconds
          have sameAfter := (collectPid_scratchOnly w seconds pid m').entry w seconds
          refine ⟨looped, ?_⟩
          rw [rest, appended, built, sameAfter, sameHere, List.filterMap_cons]
          cases m.entry w seconds pid <;> simp

/-! ## The whole call -/

/-- The PIDs one `collect` call reads, in the order it reads them. -/
def sweptPids (w : Sweep) (m : ProcessMonitor) : List Int :=
  let (seconds, m) := collectBegin w m
  reached w seconds m.pids.items m

def sweepSeconds (w : Sweep) (m : ProcessMonitor) : ℚ := (collectBegin w m).1

theorem collect_eq (w : Sweep) (m : ProcessMonitor) :
    collect w m = collectEnd w
      (collectLoop w (sweepSeconds w m) (listPids w.dir w.growPids m.pids).2.items
        (collectBegin w m).2) := rfl

/-- `collect` leaves the published sample, the events and the constants alone. -/
theorem collect_frame (w : Sweep) (m : ProcessMonitor) :
    (collect w m).processes = m.processes ∧ (collect w m).count = m.count ∧
      (collect w m).capacity = m.capacity ∧ (collect w m).events = m.events ∧
      (collect w m).constants = m.constants := by
  have only := collectLoop_scratchOnly w (sweepSeconds w m)
    (listPids w.dir w.growPids m.pids).2.items (collectBegin w m).2
  rw [collect_eq]
  exact ⟨only.processes, only.count, only.capacity, only.events, only.constants⟩

theorem collect_sample (w : Sweep) (m : ProcessMonitor) : (collect w m).sample = m.sample := by
  obtain ⟨processes, count, _⟩ := collect_frame w m
  simp only [ProcessMonitor.sample, processes, count]

theorem collect_clock (w : Sweep) (m : ProcessMonitor) :
    (collect w m).lastSample = w.now ∧ (collect w m).haveLastSample = true := by
  have only := collectLoop_scratchOnly w (sweepSeconds w m)
    (listPids w.dir w.growPids m.pids).2.items (collectBegin w m).2
  rw [collect_eq]
  exact ⟨only.lastSample, only.haveLastSample⟩

/-- What a sweep builds: the entries of the PIDs it read, rates taken against the
    sample still published. -/
theorem collect_built (w : Sweep) {m : ProcessMonitor}
    (cells : m.incoming.cells.length = m.incomingCapacity) :
    ScratchFits (collect w m) ∧
      (collect w m).built = (sweptPids w m).filterMap (m.entry w (sweepSeconds w m)) := by
  have start : ScratchFits (collectBegin w m).2 := ⟨cells, Nat.zero_le _⟩
  obtain ⟨fits, built⟩ := collectLoop_built w (sweepSeconds w m)
    (listPids w.dir w.growPids m.pids).2.items start
  have empty : (collectBegin w m).2.built = [] := List.take_zero
  rw [empty, List.nil_append] at built
  rw [collect_eq]
  exact ⟨⟨fits.cells, fits.count⟩, built⟩

theorem collect_addr (w : Sweep) (m : ProcessMonitor) :
    Stayed m (collect w m) ∨
      ∃ pid grown, w.growIncoming pid = some grown ∧
        (collect w m).incoming.addr = grown.addr :=
  collectLoop_addr w (sweepSeconds w m) (listPids w.dir w.growPids m.pids).2.items
    (collectBegin w m).2

end KernelMonitor
