import KernelMonitor.Library.Barrier
import KernelMonitor.Library.CrowdCounter

/-! # Readers and a writer of a table

Model of part 6 of `demo/threadsync.c`, for any number of readers: the barrier
`g_start_line`, the read-write lock `g_table_lock`, and the readers counted in
`g_readers_now` and `g_readers_most`. The writer is the thread `none`. A read lock may be
granted whenever nobody writes.
-/

namespace KernelMonitor

open Library

/-- The globals of part 6; `readers` and `writing` are the state of the lock. -/
structure ReadWriteTable where
  barrier : Barrier
  readers : ℕ
  writing : Bool
  crowd : Crowd
  duringWrite : ℤ
  deriving DecidableEq, Repr

/-- Where `reader_thread` or `writer_thread` is. -/
inductive TablePoint where
  /-- At `pthread_barrier_wait`, or behind it and before the lock. -/
  | line (point : BarrierPoint)
  | reading (point : CrowdPoint)
  /-- The writer has the lock. -/
  | locked
  | seen (readers : ℤ)
  | stored
  | written
  /-- A reader has returned. -/
  | gone
  deriving DecidableEq, Repr

inductive TableLabel where
  | line (label : BarrierLabel)
  | rdlock
  | crowd (label : CrowdLabel)
  | rdunlock
  | wrlock
  | look
  | store (readers : ℤ)
  | wrunlock
  deriving DecidableEq, Repr

inductive TableStep {Reader : Type*} : Option Reader → ReadWriteTable → TablePoint → TableLabel →
    ReadWriteTable → TablePoint → Prop where
  | arrive {i : Option Reader} {t : ReadWriteTable} {after : Barrier} {point : BarrierPoint}
      (step : BarrierStep t.barrier (.running 0) .arrive after point) :
      TableStep i t (.line (.running 0)) (.line .arrive) { t with barrier := after } (.line point)
  | pass {i : Option Reader} {t : ReadWriteTable} {round : ℕ} {after : Barrier}
      {point : BarrierPoint} (step : BarrierStep t.barrier (.parked round) .pass after point) :
      TableStep i t (.line (.parked round)) (.line .pass) { t with barrier := after } (.line point)
  | rdlock {r : Reader} {t : ReadWriteTable} (free : t.writing = false) :
      TableStep (some r) t (.line (.running 1)) .rdlock { t with readers := t.readers + 1 }
        (.reading .before)
  | crowd {i : Option Reader} {t : ReadWriteTable} {here there : CrowdPoint} {label : CrowdLabel}
      {after : Crowd} (step : CrowdStep t.crowd here label after there) :
      TableStep i t (.reading here) (.crowd label) { t with crowd := after } (.reading there)
  | rdunlock {i : Option Reader} {t : ReadWriteTable} :
      TableStep i t (.reading .after) .rdunlock { t with readers := t.readers - 1 } .gone
  | wrlock {t : ReadWriteTable} (free : t.writing = false) (empty : t.readers = 0) :
      TableStep none t (.line (.running 1)) .wrlock { t with writing := true } .locked
  | look {i : Option Reader} {t : ReadWriteTable} :
      TableStep i t .locked .look t (.seen t.crowd.now)
  | store {i : Option Reader} {t : ReadWriteTable} {readers : ℤ} :
      TableStep i t (.seen readers) (.store readers) { t with duringWrite := readers } .stored
  | wrunlock {i : Option Reader} {t : ReadWriteTable} :
      TableStep i t .stored .wrunlock { t with writing := false } .written

/-- What of a thread the barrier is about. -/
def TablePoint.barrier : TablePoint → BarrierPoint
  | .line point => point
  | _ => .running 1

/-- What of a thread the crowd is about; the writer is no part of it. -/
def TablePoint.crowd : TablePoint → CrowdPoint
  | .reading point => point
  | .gone => .after
  | _ => .before

def TableLabel.line? : TableLabel → Option BarrierLabel
  | .line label => some label
  | _ => none

def TableLabel.crowd? : TableLabel → Option CrowdLabel
  | .crowd label => some label
  | _ => none

/-- Holds a read lock. -/
def TablePoint.reads : TablePoint → ℕ
  | .reading _ => 1
  | _ => 0

/-- Holds the write lock. -/
def TablePoint.writes : TablePoint → ℕ
  | .locked | .seen _ | .stored => 1
  | _ => 0

/-- The thread has returned. -/
def TablePoint.returned : TablePoint → Bool
  | .written | .gone => true
  | _ => false

/-- A thread is in its own function, and the writer has seen no reader. -/
def TablePoint.Fits {Reader : Type*} (i : Option Reader) (duringWrite : ℤ) : TablePoint → Prop
  | .line point => point = .running 0 ∨ point = .parked 0 ∨ point = .running 1
  | .reading _ | .gone => i ≠ none
  | .locked => i = none
  | .seen readers => i = none ∧ readers = 0
  | .stored | .written => i = none ∧ duringWrite = 0

theorem TablePoint.Fits.stored {Reader : Type*} {i : Option Reader} {duringWrite : ℤ}
    {point : TablePoint} (fits : point.Fits i duringWrite) : point.Fits i 0 := by
  cases point with
  | stored | written => exact ⟨fits.1, rfl⟩
  | _ => exact fits

section

variable {Reader : Type*} [DecidableEq Reader] [Fintype Reader]

abbrev Table (Reader : Type*) := Pool (Option Reader) ReadWriteTable TablePoint

/-- The globals before the threads are started, and `pthread_barrier_init`. -/
def tableStart (Reader : Type*) [Fintype Reader] : ReadWriteTable :=
  ⟨⟨Fintype.card (Option Reader), 0, 0⟩, 0, false, ⟨0, 0⟩, -1⟩

/-- `part_advanced` -/
def tableSystem (Reader : Type*) [DecidableEq Reader] [Fintype Reader] :
    LabelledSystem (Table Reader) (Option Reader × TableLabel) :=
  Pool.system (tableStart Reader) (fun _ => .line (.running 0)) TableStep

/-! ## The barrier and the crowd -/

theorem table_barrier {p : Table Reader} (reachable : (tableSystem Reader).Reachable p) :
    AtBarrier (p.map ReadWriteTable.barrier TablePoint.barrier) := by
  obtain ⟨trace, _, rfl, run⟩ := reachable
  refine barrier_kept ⟨_, _, rfl,
    Pool.run_map ReadWriteTable.barrier TablePoint.barrier TableLabel.line? ?_ run⟩
  intro i t here label after there step
  cases step with
  | arrive step | pass step =>
      refine ⟨?_, by simp [TableLabel.line?]⟩
      rintro _ ⟨⟩
      exact step
  | _ => exact ⟨by simp [TableLabel.line?], fun _ => ⟨rfl, rfl⟩⟩

/-- The crowd of the readers. -/
def tableCrowd (Reader : Type*) : CrowdPart (@TableStep Reader) where
  crowd := ReadWriteTable.crowd
  point := TablePoint.crowd
  label := TableLabel.crowd?
  steps := by
    intro i t here label after there step
    cases step with
    | crowd step =>
        refine ⟨?_, by simp [TableLabel.crowd?]⟩
        rintro _ ⟨⟩
        exact step
    | _ => exact ⟨by simp [TableLabel.crowd?], fun _ => ⟨rfl, rfl⟩⟩

omit [DecidableEq Reader] in
theorem table_begins :
    (tableCrowd Reader).Begins (tableStart Reader) fun _ => .line (.running 0) :=
  ⟨rfl, fun _ => rfl⟩

theorem table_counts {p : Table Reader} (reachable : (tableSystem Reader).Reachable p) :
    p.shared.crowd.now = ((tableCrowd Reader).view p).total CrowdPoint.counted := by
  obtain ⟨trace, history⟩ := reachable
  exact crowd_counts ⟨_, table_begins.trace history⟩

omit [DecidableEq Reader] in
theorem counted_le_reads (p : Table Reader) :
    ((tableCrowd Reader).view p).total CrowdPoint.counted ≤ p.total TablePoint.reads := by
  refine Finset.sum_le_sum fun i _ => ?_
  have counted : ∀ point : TablePoint, point.crowd.counted ≤ point.reads := by
    intro point
    cases point with
    | reading point => cases point <;> simp [TablePoint.crowd, CrowdPoint.counted, TablePoint.reads]
    | _ => exact le_rfl
  exact counted (p.point i)

/-! ## The lock -/

/-- How many threads have the write lock. -/
def ReadWriteTable.writers (t : ReadWriteTable) : ℕ := if t.writing then 1 else 0

/-- What holds of the lock throughout. -/
structure TableKept (p : Table Reader) : Prop where
  readers : p.shared.readers = p.total TablePoint.reads
  writers : p.shared.writers = p.total TablePoint.writes
  apart : p.shared.writing = true → p.shared.readers = 0
  fits : ∀ i, (p.point i).Fits i p.shared.duringWrite

/-- A step of a thread, and what it does to the lock. -/
theorem TableKept.moved {p : Table Reader} (kept : TableKept p) {i : Option Reader}
    {here point : TablePoint} {shared : ReadWriteTable} (there : p.point i = here)
    (reads : shared.readers + here.reads = p.shared.readers + point.reads)
    (writes : shared.writers + here.writes = p.shared.writers + point.writes)
    (apart : shared.writing = true → shared.readers = 0)
    (own : point.Fits i shared.duringWrite)
    (others : shared.duringWrite = p.shared.duringWrite ∨ shared.duringWrite = 0) :
    TableKept (p.move i shared point) := by
  have readMoved := p.total_move TablePoint.reads i shared point
  have writeMoved := p.total_move TablePoint.writes i shared point
  have readers := kept.readers
  have writers := kept.writers
  rw [there] at readMoved writeMoved
  refine ⟨?_, ?_, apart, p.forall_move own fun j _ => ?_⟩
  · rw [p.move_shared]
    omega
  · rw [p.move_shared]
    omega
  · rcases others with same | zero
    · rw [p.move_shared, same]
      exact kept.fits j
    · rw [p.move_shared, zero]
      exact (kept.fits j).stored

omit [DecidableEq Reader] in
theorem TableKept.writing_of {p : Table Reader} (kept : TableKept p) {i : Option Reader}
    (there : (p.point i).writes = 1) : p.shared.writing = true := by
  have one := p.le_total TablePoint.writes i
  have writers := kept.writers
  by_contra idle
  rw [ReadWriteTable.writers, if_neg idle] at writers
  omega

omit [DecidableEq Reader] in
theorem TableKept.not_writing {p : Table Reader} (kept : TableKept p) {i : Option Reader}
    (there : (p.point i).reads = 1) : p.shared.writing = false := by
  by_contra writing
  have empty := kept.apart (Bool.not_eq_false _ ▸ writing)
  have one := p.le_total TablePoint.reads i
  have readers := kept.readers
  omega

theorem TableKept.step {p next : Table Reader} {label : Option Reader × TableLabel}
    (kept : TableKept p) (reachable : (tableSystem Reader).Reachable p)
    (taken : (tableSystem Reader).Step p label next) : TableKept next := by
  obtain ⟨i, label⟩ := label
  obtain ⟨shared, point, step, rfl⟩ := Pool.exists_move taken
  have mine := kept.fits i
  have round := (table_barrier reachable).fits i
  simp only [Pool.map] at round
  generalize there : p.point i = here at step mine round
  cases step with
  | arrive step =>
      refine kept.moved there rfl rfl kept.apart ?_ (.inl rfl)
      cases step with
      | wait => exact .inr (.inl (congrArg _ (Eq.symm round)))
      | «open» => exact .inr (.inr rfl)
  | pass step =>
      refine kept.moved there rfl rfl kept.apart ?_ (.inl rfl)
      cases step with
      | pass =>
          rcases mine with mine | mine | mine <;> cases mine
          exact .inr (.inr rfl)
  | rdlock free =>
      refine kept.moved there rfl rfl ?_ (by simp [TablePoint.Fits]) (.inl rfl)
      intro writing
      rw [free] at writing
      cases writing
  | crowd => exact kept.moved there rfl rfl kept.apart mine (.inl rfl)
  | rdunlock =>
      have idle := kept.not_writing (i := i) (by rw [there]; rfl)
      have one := p.le_total TablePoint.reads i
      have readers := kept.readers
      rw [there] at one
      simp only [TablePoint.reads] at one
      refine kept.moved there (by simp only [TablePoint.reads]; omega) rfl ?_ mine (.inl rfl)
      intro writing
      rw [idle] at writing
      cases writing
  | wrlock free empty =>
      refine kept.moved there rfl ?_ (fun _ => empty) rfl (.inl rfl)
      simp [ReadWriteTable.writers, free, TablePoint.writes]
  | look =>
      have writing := kept.writing_of (i := i) (by rw [there]; rfl)
      have empty := kept.apart writing
      have counts := table_counts reachable
      have few := counted_le_reads p
      have readers := kept.readers
      exact kept.moved there rfl rfl kept.apart ⟨mine, by omega⟩ (.inl rfl)
  | store => exact kept.moved there rfl rfl kept.apart mine (.inr mine.2)
  | wrunlock =>
      have writing := kept.writing_of (i := i) (by rw [there]; rfl)
      refine kept.moved there rfl ?_ (by simp) mine (.inl rfl)
      simp [ReadWriteTable.writers, writing, TablePoint.writes]

theorem table_kept {p : Table Reader} (reachable : (tableSystem Reader).Reachable p) :
    TableKept p := by
  obtain ⟨trace, history⟩ := reachable
  refine history.induct (P := fun _ p => TableKept p) ?_
    fun trace p label next earlier kept taken => kept.step ⟨trace, earlier⟩ taken
  rintro _ rfl
  refine ⟨?_, ?_, (by rintro ⟨⟩), fun _ => .inl rfl⟩
  · simp [Pool.total, TablePoint.reads, tableStart]
  · simp [Pool.total, TablePoint.writes, tableStart, ReadWriteTable.writers]

/-- Only readers count themselves. -/
theorem table_within {p : Table Reader} (reachable : (tableSystem Reader).Reachable p) :
    0 ≤ p.shared.crowd.now ∧ p.shared.crowd.now ≤ Fintype.card Reader := by
  have counts := table_counts reachable
  have few := counted_le_reads p
  have fits := (table_kept reachable).fits none
  have readers : p.total TablePoint.reads ≤ Fintype.card Reader := by
    unfold Pool.total
    rw [Fintype.sum_option]
    have none : (p.point none).reads = 0 := by
      cases there : p.point none with
      | reading => rw [there] at fits; exact absurd rfl fits
      | _ => rfl
    have each : ∑ r, (p.point (some r)).reads ≤ ∑ _r : Reader, 1 := by
      refine Finset.sum_le_sum fun r _ => ?_
      cases p.point (some r) <;> simp [TablePoint.reads]
    rw [none, Nat.zero_add]
    exact each.trans (by simp)
  omega

/-! ## Everybody returns -/

/-- How far a thread is from its end. -/
def TablePoint.left : TablePoint → ℕ
  | .line (.running 0) => 6
  | .line (.parked _) => 5
  | .line (.running _) => 4
  | .locked => 3
  | .seen _ => 2
  | .stored | .reading _ => 1
  | .written | .gone => 0

/-- A way to bring the threads nearer to their end. -/
def TableNearer (p : Table Reader) : Prop :=
  ∃ trace next, (tableSystem Reader).Run p trace next ∧ (tableSystem Reader).Reachable next ∧
    next.total TablePoint.left < p.total TablePoint.left

theorem table_nearer {p : Table Reader} (reachable : (tableSystem Reader).Reachable p)
    {i : Option Reader} {here point : TablePoint} {trace : List (Option Reader × TableLabel)}
    {after : ReadWriteTable} (there : p.point i = here)
    (run : (tableSystem Reader).Run p trace (p.move i after point))
    (lower : point.left < here.left) : TableNearer p := by
  have moved := p.total_move TablePoint.left i after point
  obtain ⟨before, history⟩ := reachable
  rw [there] at moved
  exact ⟨trace, _, run, ⟨_, history.append run⟩, by omega⟩

theorem table_goes {p : Table Reader} (reachable : (tableSystem Reader).Reachable p)
    {i : Option Reader} {here point : TablePoint} {label : TableLabel} {after : ReadWriteTable}
    (there : p.point i = here) (step : TableStep i p.shared here label after point)
    (lower : point.left < here.left) : TableNearer p := by
  have taken : (tableSystem Reader).Step p (i, label) (p.move i after point) :=
    ⟨_, _, there ▸ step, rfl⟩
  exact table_nearer reachable there (.single taken) lower

/-- A reader that is left alone returns. -/
theorem reader_returns {p : Table Reader} (reachable : (tableSystem Reader).Reachable p)
    {i : Option Reader} {point : CrowdPoint} (there : p.point i = .reading point) :
    TableNearer p := by
  obtain ⟨after, crowd⟩ := crowd_finishes p.shared.crowd point
  have inside : Relation.ReflTransGen (fun a b => ∃ label, TableStep i a.1 a.2 label b.1 b.2)
      (p.shared, .reading point) ({ p.shared with crowd := after }, .reading .after) :=
    crowd.lift (fun a : Crowd × CrowdPoint =>
        (({ p.shared with crowd := a.1 } : ReadWriteTable), TablePoint.reading a.2))
      fun _ _ ⟨label, step⟩ => ⟨.crowd label, .crowd step⟩
  have unlocks : TableStep i { p.shared with crowd := after } (.reading .after) .rdunlock
      { p.shared with crowd := after, readers := p.shared.readers - 1 } .gone := .rdunlock
  have whole : Relation.ReflTransGen (fun a b => ∃ label, TableStep i a.1 a.2 label b.1 b.2)
      (p.shared, p.point i)
      ({ p.shared with crowd := after, readers := p.shared.readers - 1 }, .gone) := by
    rw [there]
    exact inside.tail ⟨.rdunlock, unlocks⟩
  have leaves : ∃ trace, (tableSystem Reader).Run p trace (p.move i _ .gone) :=
    Pool.own_run TableStep whole
  obtain ⟨trace, run⟩ := leaves
  exact table_nearer reachable there run Nat.one_pos

/-- At the barrier somebody can go on. -/
theorem line_goes {p : Table Reader} (reachable : (tableSystem Reader).Reachable p)
    {i : Option Reader} {point : BarrierPoint} (there : p.point i = .line point)
    (out : point ≠ .running 1) : TableNearer p := by
  have barrier := table_barrier reachable
  have kept := table_kept reachable
  have arrives : ∀ j, p.point j = .line (.running 0) → TableNearer p := by
    intro j line
    by_cases early : p.shared.barrier.arrived + 1 < p.shared.barrier.parties
    · exact table_goes reachable line (.arrive (.wait early)) (by simp [TablePoint.left])
    · exact table_goes reachable line (.arrive (.open (not_lt.mp early))) (by simp [TablePoint.left])
  have mine := kept.fits i
  rw [there] at mine
  rcases mine with rfl | rfl | rfl
  · exact arrives i there
  · by_cases opened : p.shared.barrier.round = 0
    · obtain ⟨j, elsewhere⟩ := barrier.somebody
      refine arrives j ?_
      have theirs := kept.fits j
      have fits := barrier.fits j
      simp only [Pool.map, opened] at elsewhere fits
      cases here : p.point j with
      | line point =>
          rw [here] at theirs elsewhere fits
          rcases theirs with rfl | rfl | rfl
          · rfl
          · exact absurd rfl elsewhere
          · cases fits
      | _ =>
          rw [here] at fits
          cases fits
    · exact table_goes reachable there (.pass (.pass opened)) (by simp [TablePoint.left])
  · exact absurd rfl out

theorem table_able (p : Table Reader) (reachable : (tableSystem Reader).Reachable p) :
    (∀ i, (p.point i).returned = true) ∨ TableNearer p := by
  have kept := table_kept reachable
  by_cases line : ∃ i point, p.point i = .line point ∧ point ≠ .running 1
  · obtain ⟨i, point, there, out⟩ := line
    exact .inr (line_goes reachable there out)
  by_cases reads : ∃ i point, p.point i = .reading point
  · obtain ⟨i, point, there⟩ := reads
    exact .inr (reader_returns reachable there)
  by_cases writes : ∃ i, (p.point i).writes = 1
  · obtain ⟨i, writes⟩ := writes
    cases there : p.point i with
    | locked => exact .inr (table_goes reachable there .look (by simp [TablePoint.left]))
    | seen => exact .inr (table_goes reachable there .store (by simp [TablePoint.left]))
    | stored => exact .inr (table_goes reachable there .wrunlock (by simp [TablePoint.left]))
    | _ => rw [there] at writes; cases writes
  by_cases returned : ∀ i, (p.point i).returned = true
  · exact .inl returned
  · obtain ⟨i, still⟩ := not_forall.mp returned
    have empty : p.shared.readers = 0 := by
      rw [kept.readers, Pool.total_eq_zero]
      intro j
      cases there : p.point j with
      | reading point => exact absurd ⟨j, point, there⟩ reads
      | _ => rfl
    have idle : p.shared.writing = false := by
      have nobody : p.total TablePoint.writes = 0 := by
        refine Pool.total_eq_zero.mpr fun j => ?_
        cases there : p.point j with
        | locked | seen | stored => exact absurd ⟨j, by rw [there]; rfl⟩ writes
        | _ => rfl
      have writers := kept.writers
      by_contra writing
      rw [nobody, ReadWriteTable.writers, if_pos (Bool.not_eq_false _ ▸ writing)] at writers
      cases writers
    cases there : p.point i with
    | line point =>
        have through : point = .running 1 := by
          by_contra out
          exact line ⟨i, point, there, out⟩
        subst through
        right
        cases i with
        | none => exact table_goes reachable there (.wrlock idle empty) (by simp [TablePoint.left])
        | some r => exact table_goes reachable there (.rdlock idle) (by simp [TablePoint.left])
    | reading point => exact absurd ⟨i, point, there⟩ reads
    | locked | seen | stored => exact absurd ⟨i, by rw [there]; rfl⟩ writes
    | written | gone => rw [there] at still; exact absurd rfl still

/-- In every run the threads go through the barrier together, and the writer has the table
    to itself. Once all have returned the writer has counted no reader, and the maximum
    printed is the largest number of readers inside at any moment. No run gets stuck. -/
theorem table_shared {trace : List (Option Reader × TableLabel)} {p : Table Reader}
    (history : (tableSystem Reader).Trace trace p) :
    (∀ i j, (p.point i).barrier = .running 1 → p.point j ≠ .line (.running 0)) ∧
      (p.shared.writing = true → p.shared.readers = 0 ∧ p.shared.crowd.now = 0) ∧
      (0 ≤ p.shared.crowd.now ∧ p.shared.crowd.now ≤ Fintype.card Reader) ∧
      ((∀ i, (p.point i).returned = true) → p.shared.duringWrite = 0 ∧
        p.shared.crowd.now = 0 ∧ p.shared.crowd.most ≤ Fintype.card Reader ∧
        (∀ first second q, trace = first ++ second → (tableSystem Reader).Trace first q →
          q.shared.crowd.now ≤ p.shared.crowd.most) ∧
        (Nonempty Reader → 1 ≤ p.shared.crowd.most ∧
          ∃ i, (i, .crowd (.enter p.shared.crowd.most)) ∈ trace)) ∧
      ∃ more last, (tableSystem Reader).Run p more last ∧ ∀ i, (last.point i).returned = true := by
  have reachable : (tableSystem Reader).Reachable p := ⟨trace, history⟩
  have kept := table_kept reachable
  have within := table_within reachable
  refine ⟨fun i j through line => ?_, fun writing => ?_, within, fun returned => ?_, ?_⟩
  · have together := (table_barrier reachable).together through j
    simp only [Pool.map, line] at together
    cases together
  · have empty := kept.apart writing
    have counts := table_counts reachable
    have few := counted_le_reads p
    have readers := kept.readers
    exact ⟨empty, by omega⟩
  · have written : p.shared.duringWrite = 0 := by
      have ended := returned none
      have fits := kept.fits none
      cases there : p.point none with
      | written => rw [there] at fits; exact fits.2
      | gone => rw [there] at fits; exact absurd rfl fits
      | _ => rw [there] at ended; cases ended
    have out : ∀ i, (p.point i).crowd = .before ∨ (p.point i).crowd = .after := by
      intro i
      have ended := returned i
      cases there : p.point i with
      | written => exact .inl rfl
      | gone => exact .inr rfl
      | _ => rw [there] at ended; cases ended
    have peak := table_begins.peak (Int.natCast_nonneg (Fintype.card Reader))
      (fun q reached => (table_within reached).2) history out
    refine ⟨written, peak.empty, peak.within, peak.largest, ?_⟩
    rintro ⟨r⟩
    have come : (p.point (some r)).crowd ≠ .before := by
      have ended := returned (some r)
      have fits := kept.fits (some r)
      cases there : p.point (some r) with
      | gone => simp [TablePoint.crowd]
      | written => rw [there] at fits; cases fits.1
      | _ => rw [there] at ended; cases ended
    obtain ⟨positive, j, label, member, entered⟩ := peak.reached (some r) come
    refine ⟨positive, j, ?_⟩
    cases label with
    | crowd label => exact Option.some.inj entered ▸ member
    | _ => cases entered
  · obtain ⟨more, last, run, _, ended⟩ := LabelledSystem.Run.reaches table_able reachable
    exact ⟨more, last, run, ended⟩

/-- Three readers, as the demonstration has it. -/
theorem table_shared_example :
    ∃ trace last, (tableSystem (Fin 3)).Trace trace last ∧
      (∀ i, (last.point i).returned = true) ∧ last.shared.duringWrite = 0 ∧
      1 ≤ last.shared.crowd.most ∧ last.shared.crowd.most ≤ 3 := by
  have start : (tableSystem (Fin 3)).Trace [] _ := ⟨_, rfl, .refl _⟩
  obtain ⟨trace, last, run, returned⟩ := (table_shared start).2.2.2.2
  have history : (tableSystem (Fin 3)).Trace trace last := ⟨_, rfl, run⟩
  obtain ⟨none, _, most, _, some⟩ := (table_shared history).2.2.2.1 returned
  exact ⟨trace, last, history, returned, none, (some ⟨0⟩).1, by simpa using most⟩

end

end KernelMonitor
