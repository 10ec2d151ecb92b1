import KernelMonitor.Library.ThreadPool

/-! # A job of workers in one group

Model of part 2 of `demo/jobctl.c` for any number of workers: the parent makes them, puts
them into a group and signals the group; each worker puts itself into the group as well,
and leaves when the parent is gone. Ctrl+C may come at any moment, to the parent and to the
workers that are not in their group yet.
-/

namespace KernelMonitor

open Library

/-- How a worker ends: by `_exit(0)`, by SIGTERM, by the SIGHUP that the kernel sends to an
    orphaned group with stopped members, or by SIGINT and its handler. -/
inductive WorkerEnd where
  | left
  | terminated
  | hungUp
  | interrupted
  deriving DecidableEq, Repr

/-- Where a worker is: before `signal(SIGINT, SIG_DFL)`, before `setpgid`, or in
    `worker_loop`. -/
inductive WorkerPoint where
  | unborn
  | defaulting
  | grouping
  | looping
  | zombie (ending : WorkerEnd)
  | reaped (ending : WorkerEnd)
  deriving DecidableEq, Repr

structure Worker where
  point : WorkerPoint
  grouped : Bool
  stopped : Bool
  /-- SIGTERM has come and waits for SIGCONT. -/
  term : Bool
  /-- SIGINT has come. -/
  int : Bool
  /-- Its copy of `g_group` is set. -/
  known : Bool
  deriving DecidableEq, Repr

namespace Worker

def unborn : Worker := ⟨.unborn, false, false, false, false, false⟩

def alive (w : Worker) : Bool :=
  match w.point with
  | .defaulting | .grouping | .looping => true
  | _ => false

/-- It is a process yet, if only a zombie. -/
def present (w : Worker) : Bool :=
  match w.point with
  | .unborn | .reaped _ => false
  | _ => true

def ends (w : Worker) (ending : WorkerEnd) : Worker := { w with point := .zombie ending }

/-! What `kill(-g_group, ...)` does to a worker. -/

def sigstop (w : Worker) : Worker :=
  if w.alive && w.grouped then { w with stopped := true } else w

def sigcont (w : Worker) : Worker :=
  if w.alive && w.grouped then
    if w.term then w.ends .terminated else { w with stopped := false }
  else w

def sigterm (w : Worker) : Worker :=
  if w.alive && w.grouped then
    if w.stopped then { w with term := true } else w.ends .terminated
  else w

/-- SIGHUP and SIGCONT from the kernel. -/
def orphaned (w : Worker) : Worker := if w.alive && w.grouped then w.ends .hungUp else w

/-- Where SIGINT runs the handler of the parent, its SIGTERM comes before its `_exit`. -/
def handled (w : Worker) : WorkerEnd :=
  if w.known && w.point == .defaulting && w.grouped then .terminated else .interrupted

/-- Ctrl+C, which does not reach the group of the workers. -/
def sigint (w : Worker) : Worker := if w.alive && !w.grouped then { w with int := true } else w

end Worker

/-- Where the parent is: the workers it has made or waited for are counted. It has gone on
    to part 3, or else out of the program. -/
inductive JobPoint where
  | fork (i : ℕ)
  | group (i : ℕ)
  | mark
  | stop
  | cont
  | term
  | wait (i : ℕ)
  | gone (finished : Bool)
  deriving DecidableEq, Repr

structure Job where
  point : JobPoint
  /-- `g_group` is set. -/
  known : Bool
  /-- SIGINT has come. -/
  int : Bool
  worker : ℕ → Worker

namespace Job

def start : Job := ⟨.fork 0, false, false, fun _ => .unborn⟩

def GroupExists (s : Job) : Prop := ∃ j, (s.worker j).present = true ∧ (s.worker j).grouped = true

/-- The `i`th worker can get into the group, which the first one makes. -/
def Joins (s : Job) (i : ℕ) (joined : Bool) : Prop := joined = true ↔ i = 0 ∨ s.GroupExists

theorem first_joins (s : Job) : s.Joins 0 true := by simp [Joins]

def isGone (s : Job) : Bool :=
  match s.point with
  | .gone _ => true
  | _ => false

/-- `on_interrupt`, and the way out where `fork` fails. -/
def kills (s : Job) (known : Bool) : Job :=
  if known then { s with worker := fun j => (s.worker j).sigterm } else s

def set (s : Job) (i : ℕ) (w : Worker) : Job := { s with worker := Function.update s.worker i w }

end Job

inductive JobLabel where
  | parent
  | worker (i : ℕ)
  | interrupt
  | handle (i : ℕ)
  | ctrlC
  | orphan
  deriving DecidableEq, Repr

inductive JobStep (n : ℕ) : Job → JobLabel → Job → Prop where
  | fork {s : Job} {i : ℕ} (there : s.point = .fork i) (more : i < n) :
      JobStep n s .parent
        { s.set i ⟨.defaulting, false, false, false, false, s.known⟩ with point := .group i }
  | forkFails {s : Job} {i : ℕ} (there : s.point = .fork i) (more : i < n) :
      JobStep n s .parent { s.kills s.known with point := .gone false }
  | group {s : Job} {i : ℕ} {joined : Bool} (there : s.point = .group i)
      (joins : s.Joins i joined) :
      JobStep n s .parent
        { s.set i { s.worker i with grouped := (s.worker i).grouped || joined } with
          point := if i = 0 then .mark else .fork (i + 1) }
  | mark {s : Job} (there : s.point = .mark) :
      JobStep n s .parent { s with point := .fork 1, known := true }
  | forked {s : Job} (there : s.point = .fork n) : JobStep n s .parent { s with point := .stop }
  | stop {s : Job} (there : s.point = .stop) :
      JobStep n s .parent { s with point := .cont, worker := fun j => (s.worker j).sigstop }
  | cont {s : Job} (there : s.point = .cont) :
      JobStep n s .parent { s with point := .term, worker := fun j => (s.worker j).sigcont }
  | term {s : Job} (there : s.point = .term) :
      JobStep n s .parent { s with point := .wait 0, worker := fun j => (s.worker j).sigterm }
  | wait {s : Job} {i : ℕ} {ending : WorkerEnd} (there : s.point = .wait i) (more : i < n)
      (ended : (s.worker i).point = .zombie ending) :
      JobStep n s .parent
        { s.set i { s.worker i with point := .reaped ending } with point := .wait (i + 1) }
  | finish {s : Job} (there : s.point = .wait n) :
      JobStep n s .parent { s with point := .gone true }
  /-- `on_interrupt` in the parent. -/
  | interrupt {s : Job} (come : s.int = true) (there : s.isGone = false) :
      JobStep n s .interrupt { s.kills s.known with point := .gone false }
  | setDefault {s : Job} {i : ℕ} (there : (s.worker i).point = .defaulting)
      (runs : (s.worker i).stopped = false) :
      JobStep n s (.worker i) (s.set i { s.worker i with point := .grouping })
  | setpgid {s : Job} {i : ℕ} {joined : Bool} (there : (s.worker i).point = .grouping)
      (runs : (s.worker i).stopped = false) (joins : s.Joins i joined) :
      JobStep n s (.worker i) (s.set i
        { s.worker i with point := .looping, grouped := (s.worker i).grouped || joined })
  /-- `getppid() != parent` -/
  | leave {s : Job} {i : ℕ} (there : (s.worker i).point = .looping)
      (runs : (s.worker i).stopped = false) (gone : s.isGone = true) :
      JobStep n s (.worker i) (s.set i ((s.worker i).ends .left))
  /-- SIGINT runs the handler of the parent in a worker that has not yet called `signal`. -/
  | handle {s : Job} {i : ℕ} (alive : (s.worker i).alive = true)
      (runs : (s.worker i).stopped = false) (come : (s.worker i).int = true) :
      JobStep n s (.handle i)
        ((s.kills ((s.worker i).known && (s.worker i).point == .defaulting)).set i
          ((s.worker i).ends (s.worker i).handled))
  /-- One that changes nothing is no step. -/
  | ctrlC {s : Job} (new : (s.isGone = false ∧ s.int = false) ∨ ∃ i, (s.worker i).alive = true ∧
      (s.worker i).grouped = false ∧ (s.worker i).int = false) :
      JobStep n s .ctrlC
        { s with int := s.int || !s.isGone, worker := fun j => (s.worker j).sigint }
  /-- Orphans go to a process outside the session, so that their group is orphaned too. -/
  | orphan {s : Job} {i : ℕ} (gone : s.isGone = true) (alive : (s.worker i).alive = true)
      (grouped : (s.worker i).grouped = true) (stopped : (s.worker i).stopped = true) :
      JobStep n s .orphan { s with worker := fun j => (s.worker j).orphaned }

/-- Part 2 of `main` with `n` for `WORKERS`, which is at least 1: without workers `g_group`
    stays 0, which `kill` takes for the group of the parent. -/
def jobSystem (n : ℕ) : LabelledSystem Job JobLabel where
  Init s := s = .start
  Step := JobStep n

/-! ## Where the workers are when the parent is at a call -/

/-- A worker in the group that runs, or has ended. -/
structure Worker.Ready (w : Worker) : Prop where
  present : w.present = true
  grouped : w.grouped = true
  runs : w.stopped = false
  noTerm : w.term = false

structure Worker.Fresh (w : Worker) : Prop where
  present : w.present = true
  runs : w.stopped = false
  noTerm : w.term = false

def WorkerPoint.isReaped : WorkerPoint → Bool
  | .reaped _ => true
  | _ => false

def Worker.Expected (n : ℕ) (there : JobPoint) (j : ℕ) (w : Worker) : Prop :=
  match there with
  | .fork i => if j < i then w.Ready else w = .unborn
  | .group i => if j < i then w.Ready else if j = i then w.Fresh else w = .unborn
  | .mark => if j < 1 then w.Ready else w = .unborn
  | .stop | .term => if j < n then w.Ready else w = .unborn
  | .cont =>
      if j < n then w.present = true ∧ w.grouped = true ∧ w.stopped = w.alive ∧ w.term = false
      else w = .unborn
  | .wait i =>
      if j < i then w.point.isReaped = true ∧ w.stopped = false
      else if j < n then (w.present = true ∧ w.alive = false) ∧ w.stopped = false
      else w = .unborn
  | .gone finished =>
      (finished = true → j < n → w.point.isReaped = true) ∧
        (w.stopped = true → w.grouped = true) ∧ (n ≤ j → w = .unborn)

def JobPoint.Within (n : ℕ) : JobPoint → Prop
  | .fork i | .wait i => i ≤ n
  | .group i => i < n
  | .mark => 0 < n
  | _ => True

/-- What no step of a worker and no signal after the end of a stop changes. -/
structure Worker.Follows (w next : Worker) : Prop where
  unborn : w = .unborn → next = .unborn
  present : w.present = true → next.present = true
  reaped : w.point.isReaped = true → next.point.isReaped = true
  alive : next.alive = true → w.alive = true
  grouped : w.grouped = true → next.grouped = true
  stops : next.stopped = true → w.stopped = true
  noTerm : w.stopped = false → w.term = false → next.term = false

namespace Worker

variable {w next : Worker}

theorem Follows.refl (w : Worker) : w.Follows w :=
  ⟨id, id, id, id, id, id, fun _ => id⟩

theorem Follows.ends (alive : w.alive = true) (ending : WorkerEnd) : w.Follows (w.ends ending) := by
  refine ⟨?_, fun _ => rfl, ?_, nofun, id, id, fun _ => id⟩
  · rintro rfl
    cases alive
  · intro reaped
    cases there : w.point <;> simp_all [Worker.alive, WorkerPoint.isReaped]

theorem Follows.sigterm (w : Worker) : w.Follows w.sigterm := by
  unfold Worker.sigterm
  split
  · rename_i reached
    rw [Bool.and_eq_true] at reached
    split
    · rename_i stopped
      refine ⟨?_, id, id, id, id, id, fun runs => ?_⟩
      · rintro rfl
        cases stopped
      · rw [stopped] at runs
        cases runs
    · exact .ends reached.1 .terminated
  · exact .refl w

theorem Follows.orphaned (w : Worker) : w.Follows w.orphaned := by
  unfold Worker.orphaned
  split
  · rename_i reached
    rw [Bool.and_eq_true] at reached
    exact .ends reached.1 .hungUp
  · exact .refl w

theorem Follows.sigint (w : Worker) : w.Follows w.sigint := by
  unfold Worker.sigint
  split
  · rename_i reached
    refine ⟨?_, id, id, id, id, id, fun _ => id⟩
    rintro rfl
    cases reached
  · exact .refl w

theorem Follows.moves {point : WorkerPoint} (grouped : Bool) (alive : w.alive = true)
    (there : point = .grouping ∨ point = .looping) :
    w.Follows { w with point := point, grouped := w.grouped || grouped } := by
  refine ⟨?_, fun _ => ?_, fun reaped => ?_, fun _ => alive, fun held => by simp [held], id,
    fun _ => id⟩
  · rintro rfl
    cases alive
  · rcases there with rfl | rfl <;> rfl
  · cases here : w.point <;> simp_all [Worker.alive, WorkerPoint.isReaped]

theorem Follows.runs (follows : w.Follows next) (runs : w.stopped = false) :
    next.stopped = false := by
  rw [← Bool.not_eq_true] at runs ⊢
  exact fun there => runs (follows.stops there)

theorem Follows.ready (follows : w.Follows next) (ready : w.Ready) : next.Ready where
  present := follows.present ready.present
  grouped := follows.grouped ready.grouped
  runs := follows.runs ready.runs
  noTerm := follows.noTerm ready.runs ready.noTerm

/-- Outside of a stop what is expected of a worker stays true over its own steps and over
    SIGTERM. -/
theorem Expected.follows {n j : ℕ} {there : JobPoint} (expected : w.Expected n there j)
    (apart : there ≠ .cont) (follows : w.Follows next) : next.Expected n there j := by
  cases there with
  | cont => exact absurd rfl apart
  | fork | mark | stop | term =>
      simp only [Expected] at expected ⊢
      split at expected
      · rename_i before
        rw [if_pos before]
        exact follows.ready expected
      · rename_i behind
        rw [if_neg behind]
        exact follows.unborn expected
  | group i =>
      simp only [Expected] at expected ⊢
      split_ifs at expected ⊢
      · exact follows.ready expected
      · exact ⟨follows.present expected.present, follows.runs expected.runs,
          follows.noTerm expected.runs expected.noTerm⟩
      · exact follows.unborn expected
  | wait i =>
      simp only [Expected] at expected ⊢
      split_ifs at expected ⊢
      · exact ⟨follows.reaped expected.1, follows.runs expected.2⟩
      · refine ⟨⟨follows.present expected.1.1, ?_⟩, follows.runs expected.2⟩
        have dead := expected.1.2
        rw [← Bool.not_eq_true] at dead ⊢
        exact fun alive => dead (follows.alive alive)
      · exact follows.unborn expected
  | gone finished =>
      obtain ⟨reaped, held, unborn⟩ := expected
      exact ⟨fun done inside => follows.reaped (reaped done inside),
        fun stopped => follows.grouped (held (follows.stops stopped)),
        fun outside => follows.unborn (unborn outside)⟩

/-- When the parent leaves early nothing is stopped that its group does not hold. -/
theorem Expected.quits {n j : ℕ} {there : JobPoint} (expected : w.Expected n there j)
    (within : there.Within n) : w.Expected n (.gone false) j := by
  refine ⟨nofun, fun stopped => ?_, fun outside => ?_⟩
  · by_contra free
    have never : w ≠ .unborn := by
      rintro rfl
      cases stopped
    cases there <;> simp only [Expected] at expected <;>
      (try split_ifs at expected) <;>
      first
      | exact never expected
      | exact absurd (expected.runs.symm.trans stopped) (by simp)
      | exact free expected.2.1
      | exact absurd (expected.2.symm.trans stopped) (by simp)
      | exact free (expected.2.1 stopped)
  · cases there <;> simp only [Expected, JobPoint.Within] at expected within <;>
      (try split_ifs at expected) <;>
      first
      | exact expected
      | omega
      | exact expected.2.2 outside

end Worker

structure Job.Kept (n : ℕ) (s : Job) : Prop where
  within : s.point.Within n
  expected : ∀ j, (s.worker j).Expected n s.point j

/-- Where a worker is alive it has been made, and where it runs nobody is stopped. -/
theorem Job.Kept.runs {n : ℕ} {s : Job} (kept : s.Kept n) {i : ℕ}
    (alive : (s.worker i).alive = true) (runs : (s.worker i).stopped = false) :
    s.point ≠ .cont := by
  intro there
  have mine := kept.expected i
  rw [there] at mine
  simp only [Worker.Expected] at mine
  split_ifs at mine
  · rw [mine.2.2.1, alive] at runs
    cases runs
  · rw [mine] at alive
    cases alive

/-- Own steps of workers, and SIGTERM from one of them. -/
theorem Job.Kept.follows {n : ℕ} {s t : Job} (kept : s.Kept n) (apart : s.point ≠ .cont)
    (same : t.point = s.point) (follows : ∀ j, (s.worker j).Follows (t.worker j)) : t.Kept n := by
  refine ⟨same ▸ kept.within, fun j => ?_⟩
  rw [same]
  exact (kept.expected j).follows apart (follows j)

theorem Job.follows_set {s : Job} {i : ℕ} {w : Worker} (follows : (s.worker i).Follows w) (j : ℕ) :
    (s.worker j).Follows ((s.set i w).worker j) := by
  by_cases same : j = i
  · subst same
    simpa [Job.set] using follows
  · simpa [Job.set, same] using Worker.Follows.refl _

theorem Job.follows_kills (s : Job) (known : Bool) (j : ℕ) :
    (s.worker j).Follows ((s.kills known).worker j) := by
  unfold Job.kills
  split
  · exact .sigterm _
  · exact .refl _

/-- The first worker keeps the group in being until it is waited for. -/
theorem Job.Kept.joins {n i : ℕ} {s : Job} (kept : s.Kept n) (there : s.point = .group i)
    {joined : Bool} (joins : s.Joins i joined) : joined = true := by
  refine joins.mpr ?_
  rcases Nat.eq_zero_or_pos i with first | later
  · exact .inl first
  · have ready := kept.expected 0
    rw [there] at ready
    simp only [Worker.Expected, if_pos later] at ready
    exact .inr ⟨0, ready.present, ready.grouped⟩

theorem Worker.Ready.sigstop {w : Worker} (ready : w.Ready) :
    w.sigstop.present = true ∧ w.sigstop.grouped = true ∧ w.sigstop.stopped = w.sigstop.alive ∧
      w.sigstop.term = false := by
  obtain ⟨present, grouped, runs, noTerm⟩ := ready
  unfold Worker.sigstop
  split
  · rename_i reached
    rw [Bool.and_eq_true] at reached
    exact ⟨present, grouped, reached.1.symm, noTerm⟩
  · rename_i missed
    have dead : w.alive = false := by simpa [grouped] using missed
    exact ⟨present, grouped, runs.trans dead.symm, noTerm⟩

theorem Worker.ready_sigcont {w : Worker} (stopped : w.present = true ∧ w.grouped = true ∧
    w.stopped = w.alive ∧ w.term = false) : w.sigcont.Ready := by
  obtain ⟨present, grouped, stops, noTerm⟩ := stopped
  unfold Worker.sigcont
  cases alive : w.alive with
  | true =>
      simp only [grouped, noTerm, Bool.and_self, if_true, Bool.false_eq_true, if_false]
      exact ⟨present, rfl, rfl, rfl⟩
  | false =>
      simp only [Bool.false_and, Bool.false_eq_true, if_false]
      exact ⟨present, grouped, stops.trans alive, noTerm⟩

theorem Worker.Ready.sigterm {w : Worker} (ready : w.Ready) :
    (w.sigterm.present = true ∧ w.sigterm.alive = false) ∧ w.sigterm.stopped = false := by
  obtain ⟨present, grouped, runs, _⟩ := ready
  unfold Worker.sigterm
  cases alive : w.alive with
  | true =>
      simp only [grouped, runs, Bool.and_self, if_true, Bool.false_eq_true, if_false]
      exact ⟨⟨rfl, rfl⟩, runs⟩
  | false =>
      simp only [Bool.false_and, Bool.false_eq_true, if_false]
      exact ⟨⟨present, alive⟩, runs⟩

theorem JobStep.kept {n : ℕ} {s t : Job} {label : JobLabel} (step : JobStep n s label t)
    (kept : s.Kept n) : t.Kept n := by
  have quits : ∀ j, (s.worker j).Expected n (.gone false) j := fun j =>
    (kept.expected j).quits kept.within
  have expected := kept.expected
  have within := kept.within
  cases step with
  | fork there more =>
      rename_i i
      rw [there] at expected
      refine ⟨more, fun j => ?_⟩
      have mine := expected j
      simp only [Worker.Expected, Job.set] at mine ⊢
      by_cases same : j = i
      · subst same
        simp only [lt_irrefl, if_false, if_true, Function.update_self]
        exact ⟨rfl, rfl, rfl⟩
      · simpa only [same, if_false, Function.update_of_ne same] using mine
  | forkFails there more =>
      refine ⟨trivial, fun j => ?_⟩
      exact (quits j).follows (by simp) (s.follows_kills _ j)
  | group there joins =>
      rename_i i joined
      have gets := kept.joins there joins
      rw [there] at expected within
      have ready : ∀ j, j < i + 1 → Worker.Ready
          ((s.set i { s.worker i with grouped := (s.worker i).grouped || joined }).worker j) := by
        intro j before
        have mine := expected j
        simp only [Worker.Expected] at mine
        by_cases same : j = i
        · subst same
          simp only [lt_irrefl, if_false, if_true] at mine
          simp only [Job.set, Function.update_self]
          exact ⟨mine.present, by simp [gets], mine.runs, mine.noTerm⟩
        · rw [if_pos (by omega)] at mine
          simpa only [Job.set, Function.update_of_ne same] using mine
      have unborn : ∀ j, ¬ j < i + 1 →
          (s.set i { s.worker i with grouped := (s.worker i).grouped || joined }).worker j =
            .unborn := by
        intro j behind
        have mine := expected j
        simp only [Worker.Expected] at mine
        rw [if_neg (by omega), if_neg (by omega)] at mine
        simpa only [Job.set, Function.update_of_ne (by omega : j ≠ i)] using mine
      by_cases first : i = 0
      · subst first
        refine ⟨within, fun j => ?_⟩
        simp only [if_true, Worker.Expected]
        split
        · exact ready j (by omega)
        · exact unborn j (by omega)
      · refine ⟨?_, fun j => ?_⟩
        · simp only [if_neg first]
          exact within
        · simp only [if_neg first, Worker.Expected]
          split
          · exact ready j (by omega)
          · exact unborn j (by omega)
  | mark there =>
      rw [there] at expected within
      exact ⟨within, expected⟩
  | forked there =>
      rw [there] at expected
      exact ⟨trivial, expected⟩
  | stop there =>
      rw [there] at expected
      refine ⟨trivial, fun j => ?_⟩
      have mine := expected j
      simp only [Worker.Expected] at mine ⊢
      split_ifs at mine ⊢
      · exact mine.sigstop
      · rw [mine]
        rfl
  | cont there =>
      rw [there] at expected
      refine ⟨trivial, fun j => ?_⟩
      have mine := expected j
      simp only [Worker.Expected] at mine ⊢
      split_ifs at mine ⊢
      · exact Worker.ready_sigcont mine
      · rw [mine]
        rfl
  | term there =>
      rw [there] at expected
      refine ⟨Nat.zero_le n, fun j => ?_⟩
      have mine := expected j
      simp only [Worker.Expected, Nat.not_lt_zero, if_false] at mine ⊢
      split_ifs at mine ⊢
      · exact mine.sigterm
      · rw [mine]
        rfl
  | wait there more ended =>
      rename_i i ending
      rw [there] at expected
      refine ⟨more, fun j => ?_⟩
      have mine := expected j
      simp only [Worker.Expected] at mine ⊢
      by_cases same : j = i
      · subst same
        rw [if_neg (lt_irrefl j), if_pos more] at mine
        rw [if_pos (Nat.lt_succ_self j)]
        simp only [Job.set, Function.update_self]
        exact ⟨rfl, mine.2⟩
      · have edge : j < i + 1 ↔ j < i := by omega
        simpa only [edge, Job.set, Function.update_of_ne same] using mine
  | finish there =>
      rw [there] at expected
      refine ⟨trivial, fun j => ?_⟩
      have mine := expected j
      simp only [Worker.Expected] at mine
      split_ifs at mine with inside
      · refine ⟨fun _ _ => mine.1, fun stopped => ?_, fun outside => by omega⟩
        rw [mine.2] at stopped
        cases stopped
      · refine ⟨fun _ within => absurd within inside, fun stopped => ?_, fun _ => mine⟩
        rw [mine] at stopped
        cases stopped
  | interrupt come there =>
      refine ⟨trivial, fun j => ?_⟩
      exact (quits j).follows (by simp) (s.follows_kills _ j)
  | setDefault there runs =>
      rename_i i
      have alive : (s.worker i).alive = true := by rw [Worker.alive, there]
      refine kept.follows (kept.runs alive runs) rfl (Job.follows_set ?_)
      simpa using Worker.Follows.moves false alive (.inl rfl)
  | setpgid there runs joins =>
      rename_i i joined
      have alive : (s.worker i).alive = true := by rw [Worker.alive, there]
      exact kept.follows (kept.runs alive runs) rfl
        (Job.follows_set (Worker.Follows.moves _ alive (.inr rfl)))
  | leave there runs gone =>
      rename_i i
      have alive : (s.worker i).alive = true := by rw [Worker.alive, there]
      exact kept.follows (kept.runs alive runs) rfl (Job.follows_set (.ends alive _))
  | handle alive runs come =>
      rename_i i
      refine kept.follows (kept.runs alive runs) ?_ fun j => ?_
      · unfold Job.kills
        split <;> rfl
      · by_cases same : j = i
        · subst same
          simpa [Job.set] using Worker.Follows.ends alive (s.worker j).handled
        · simpa [Job.set, same] using s.follows_kills _ j
  | ctrlC new =>
      by_cases stopped : s.point = .cont
      · refine ⟨within, fun j => ?_⟩
        have mine := expected j
        have unmoved : (s.worker j).sigint = s.worker j := by
          rw [stopped] at mine
          simp only [Worker.Expected] at mine
          split_ifs at mine
          · simp [Worker.sigint, mine.2.1]
          · rw [mine]
            rfl
        simpa only [unmoved] using mine
      · exact kept.follows stopped rfl fun j => .sigint _
  | orphan gone alive grouped stopped =>
      refine kept.follows ?_ rfl fun j => .orphaned _
      intro there
      rw [Job.isGone, there] at gone
      cases gone

theorem job_kept {n : ℕ} {s : Job} (reachable : (jobSystem n).Reachable s) : s.Kept n := by
  refine reachable.invariant (P := fun s => s.Kept n) ?_
    fun s label t (step : JobStep n s label t) kept => step.kept kept
  rintro _ rfl
  exact ⟨Nat.zero_le n, fun j => by simp [Job.start, Worker.Expected]⟩

/-! ## Without Ctrl+C -/

def WorkerPoint.ending? : WorkerPoint → Option WorkerEnd
  | .zombie ending | .reaped ending => some ending
  | _ => none

def JobPoint.working : JobPoint → Bool
  | .wait _ | .gone _ => false
  | _ => true

structure Job.Calm (s : Job) : Prop where
  int : s.int = false
  workers : ∀ j, (s.worker j).int = false
  alive : s.point.working = true → ∀ j, (s.worker j).point.ending? = none
  ended : s.point ≠ .gone false → ∀ j, (s.worker j).point.ending? = none ∨
    (s.worker j).point.ending? = some .terminated

theorem Worker.sigterm_spec (w : Worker) : w.sigterm.int = w.int ∧
    (w.sigterm.point = w.point ∨ w.sigterm.point.ending? = some .terminated) := by
  unfold Worker.sigterm
  split_ifs
  · exact ⟨rfl, .inl rfl⟩
  · exact ⟨rfl, .inr rfl⟩
  · exact ⟨rfl, .inl rfl⟩

theorem Worker.sigstop_spec (w : Worker) : w.sigstop.int = w.int ∧ w.sigstop.point = w.point := by
  unfold Worker.sigstop
  split_ifs <;> exact ⟨rfl, rfl⟩

theorem Worker.sigcont_spec {w : Worker} (noTerm : w.term = false) :
    w.sigcont.int = w.int ∧ w.sigcont.point = w.point := by
  unfold Worker.sigcont
  simp only [noTerm, Bool.false_eq_true, if_false]
  split_ifs <;> exact ⟨rfl, rfl⟩

/-- One worker is changed, and as little as that. -/
theorem Job.Calm.set {s t : Job} (calm : s.Calm) {i : ℕ} {w : Worker} (same : t.int = s.int)
    (workers : t.worker = Function.update s.worker i w) (int : w.int = false)
    (point : w.point.ending? = none ∨
      s.point.working = false ∧ w.point.ending? = (s.worker i).point.ending?)
    (alive : t.point.working = true → s.point.working = true)
    (ended : t.point ≠ .gone false → s.point ≠ .gone false) : t.Calm := by
  refine ⟨same.trans calm.int, fun j => ?_, fun work j => ?_, fun good j => ?_⟩ <;>
    rw [workers] <;> by_cases here : j = i
  · rw [here, Function.update_self]
    exact int
  · rw [Function.update_of_ne here]
    exact calm.workers j
  · rw [here, Function.update_self]
    rcases point with none | ⟨rest, _⟩
    · exact none
    · rw [alive work] at rest
      cases rest
  · rw [Function.update_of_ne here]
    exact calm.alive (alive work) j
  · rw [here, Function.update_self]
    rcases point with none | ⟨_, same⟩
    · exact .inl none
    · rw [same]
      exact calm.ended (ended good) i
  · rw [Function.update_of_ne here]
    exact calm.ended (ended good) j

/-- Nobody who is alive has seen the parent come to its regular end. -/
theorem Job.Kept.unfinished {n : ℕ} {s : Job} (kept : s.Kept n) {i : ℕ}
    (alive : (s.worker i).alive = true) (gone : s.isGone = true) : s.point = .gone false := by
  have mine := kept.expected i
  cases there : s.point with
  | gone finished =>
      cases finished with
      | false => rfl
      | true =>
          rw [there] at mine
          simp only [Worker.Expected] at mine
          obtain ⟨reaped, _, unborn⟩ := mine
          by_cases inside : i < n
          · have ended := reaped trivial inside
            cases here : (s.worker i).point <;>
              simp_all [Worker.alive, WorkerPoint.isReaped]
          · rw [unborn (by omega)] at alive
            cases alive
  | _ => simp [Job.isGone, there] at gone

theorem JobStep.calm {n : ℕ} {s t : Job} {label : JobLabel} (step : JobStep n s label t)
    (quiet : label ≠ .ctrlC) (kept : s.Kept n) (calm : s.Calm) : t.Calm := by
  have ⟨int, workers, alive, ended⟩ := calm
  have expected := kept.expected
  cases step with
  | fork there =>
      exact calm.set rfl rfl rfl (.inl rfl) (fun _ => by rw [there]; rfl) (by simp [there])
  | forkFails there =>
      refine ⟨?_, fun j => ?_, nofun, fun good => absurd rfl good⟩ <;> unfold Job.kills <;> split
      · exact int
      · exact int
      · exact ((s.worker j).sigterm_spec.1).trans (workers j)
      · exact workers j
  | group there =>
      have working : s.point.working = true := by rw [there]; rfl
      exact calm.set rfl rfl (workers _) (.inl (alive working _)) (fun _ => working)
        (by simp [there])
  | mark there | forked there =>
      have working : s.point.working = true := by rw [there]; rfl
      exact ⟨int, workers, fun _ => alive working, fun _ => ended (by simp [there])⟩
  | stop there =>
      have none := alive (by rw [there]; rfl)
      refine ⟨int, fun j => ((s.worker j).sigstop_spec.1).trans (workers j), fun _ j => ?_,
        fun _ j => .inl ?_⟩ <;>
        simpa only [(s.worker j).sigstop_spec.2] using none j
  | cont there =>
      have none := alive (by rw [there]; rfl)
      have noTerm : ∀ j, (s.worker j).term = false := by
        intro j
        have mine := expected j
        rw [there] at mine
        simp only [Worker.Expected] at mine
        split_ifs at mine
        · exact mine.2.2.2
        · rw [mine]
          rfl
      refine ⟨int, fun j => (Worker.sigcont_spec (noTerm j)).1.trans (workers j), fun _ j => ?_,
        fun _ j => .inl ?_⟩ <;>
        simpa only [(Worker.sigcont_spec (noTerm j)).2] using none j
  | term there =>
      have none := alive (by rw [there]; rfl)
      refine ⟨int, fun j => ((s.worker j).sigterm_spec.1).trans (workers j), nofun,
        fun _ j => ?_⟩
      rcases (s.worker j).sigterm_spec.2 with same | terminated
      · exact .inl ((congrArg WorkerPoint.ending? same).trans (none j))
      · exact .inr terminated
  | wait there more zombie =>
      refine calm.set rfl rfl (workers _) (.inr ⟨by rw [there]; rfl, by rw [zombie]; rfl⟩) nofun
        (by simp [there])
  | finish there =>
      exact ⟨int, workers, nofun, fun _ => ended (by simp [there])⟩
  | interrupt come => exact absurd (come.symm.trans int) (by simp)
  | handle _ _ come => exact absurd (come.symm.trans (workers _)) (by simp)
  | setDefault | setpgid => exact calm.set rfl rfl (workers _) (.inl rfl) id id
  | leave there runs gone =>
      rename_i i
      have failed := kept.unfinished (by rw [Worker.alive, there]) gone
      refine ⟨int, fun j => ?_, fun working => ?_, fun good => absurd failed good⟩
      · by_cases same : j = i
        · subst same
          simpa [Job.set, Worker.ends] using workers j
        · simpa [Job.set, same] using workers j
      · simp only [Job.set, failed] at working
        cases working
  | orphan gone alive grouped stopped =>
      rename_i i
      have failed := kept.unfinished alive gone
      refine ⟨int, fun j => ?_, fun working => ?_, fun good => absurd failed good⟩
      · simp only [Worker.orphaned]
        split_ifs
        · exact workers j
        · exact workers j
      · simp only [failed] at working
        cases working
  | ctrlC => exact absurd rfl quiet

theorem job_calm {n : ℕ} {trace : List JobLabel} {s : Job} (history : (jobSystem n).Trace trace s)
    (quiet : .ctrlC ∉ trace) : s.Calm := by
  revert quiet
  refine history.induct (P := fun trace s => .ctrlC ∉ trace → s.Calm) ?_ ?_
  · rintro _ rfl _
    exact ⟨rfl, fun _ => rfl, fun _ _ => rfl, fun _ _ => .inl rfl⟩
  · intro trace s label t before calm step quiet
    rw [List.mem_append, List.mem_singleton, not_or] at quiet
    exact JobStep.calm step (Ne.symm quiet.2) (job_kept ⟨trace, before⟩) (calm quiet.1)

/-- Without Ctrl+C one call of `kill` reaches every worker, whoever of parent and child came
    first in putting it into the group: all are stopped by SIGSTOP, run again after SIGCONT,
    and have been ended by SIGTERM when the parent waits for them, and reaped at the end. -/
theorem job_controls {n : ℕ} {trace : List JobLabel} {s : Job}
    (history : (jobSystem n).Trace trace s) (quiet : .ctrlC ∉ trace) :
    (s.point = .cont → ∀ i < n, (s.worker i).alive = true ∧ (s.worker i).stopped = true) ∧
      (s.point = .term → ∀ i < n, (s.worker i).alive = true ∧ (s.worker i).stopped = false) ∧
      (∀ k, s.point = .wait k → ∀ i < n, (s.worker i).point.ending? = some .terminated) ∧
      (s.point = .gone true → ∀ i < n, (s.worker i).point = .reaped .terminated) := by
  have expected := (job_kept ⟨trace, history⟩).expected
  obtain ⟨_, _, alive, ended⟩ := job_calm history quiet
  have living : ∀ i, (s.worker i).present = true → (s.worker i).point.ending? = none →
      (s.worker i).alive = true := by
    intro i present none
    cases there : (s.worker i).point <;>
      simp_all [Worker.present, Worker.alive, WorkerPoint.ending?]
  refine ⟨fun there i inside => ?_, fun there i inside => ?_, fun k there i inside => ?_,
    fun there i inside => ?_⟩
  · have mine := expected i
    have none := alive (by rw [there]; rfl) i
    simp only [there, Worker.Expected, if_pos inside] at mine
    have lives := living i mine.1 none
    exact ⟨lives, mine.2.2.1.trans lives⟩
  · have mine := expected i
    have none := alive (by rw [there]; rfl) i
    simp only [there, Worker.Expected, if_pos inside] at mine
    exact ⟨living i mine.present none, mine.runs⟩
  · have mine := expected i
    refine (ended (by simp [there]) i).resolve_left fun none => ?_
    simp only [there, Worker.Expected, if_pos inside] at mine
    split_ifs at mine
    · cases here : (s.worker i).point <;>
        simp_all [WorkerPoint.isReaped, WorkerPoint.ending?]
    · exact absurd (living i mine.1.1 none) (by simp [mine.1.2])
  · have mine := expected i
    simp only [there, Worker.Expected] at mine
    have reaped := mine.1 trivial inside
    have how := ended (by simp [there]) i
    cases here : (s.worker i).point <;>
      simp_all [WorkerPoint.isReaped, WorkerPoint.ending?]

/-- One worker, which does nothing before it is stopped. -/
theorem job_controls_example :
    ∃ trace s, (jobSystem 1).Trace trace s ∧ s.point = .gone true ∧
      (s.worker 0).point = .reaped .terminated := by
  have ends : (jobSystem 1).Trace _ _ := ⟨_, rfl, .cons (.fork rfl (by decide)) <|
    .cons (.group rfl (Job.first_joins _)) <| .cons (.mark rfl) <|
    .cons (.forked rfl) <| .cons (.stop rfl) <| .cons (.cont rfl) <| .cons (.term rfl) <|
    .cons (.wait rfl (by decide) rfl) <| .single (.finish rfl)⟩
  exact ⟨_, _, ends, rfl, (job_controls ends (by decide)).2.2.2 rfl 0 (by decide)⟩

/-! ## The way to the end -/

def JobPoint.left (n : ℕ) : JobPoint → ℕ
  | .fork i => 7 * (n - i) + n + 6
  | .group i => 7 * (n - i) + n + 1
  | .mark => 8 * n
  | .stop => n + 5
  | .cont => n + 4
  | .term => n + 3
  | .wait i => n - i + 2
  | .gone _ => 0

def WorkerPoint.left : WorkerPoint → ℕ
  | .defaulting => 3
  | .grouping => 2
  | .looping => 1
  | _ => 0

namespace Worker

/-- The steps it can take, and Ctrl+C once. -/
def left (w : Worker) : ℕ := w.point.left + if w.alive && !w.int then 1 else 0

@[simp] theorem left_ends (w : Worker) (ending : WorkerEnd) : (w.ends ending).left = 0 := rfl

theorem left_pos {w : Worker} (alive : w.alive = true) : 0 < w.left := by
  cases there : w.point <;> simp_all [left, WorkerPoint.left, Worker.alive]

theorem left_sigstop (w : Worker) : w.sigstop.left ≤ w.left := by
  unfold sigstop
  split
  · exact le_refl w.left
  · exact le_refl w.left

theorem left_sigcont (w : Worker) : w.sigcont.left ≤ w.left := by
  unfold sigcont
  split_ifs
  · exact Nat.zero_le w.left
  · exact le_refl w.left
  · exact le_refl w.left

theorem left_sigterm (w : Worker) : w.sigterm.left ≤ w.left := by
  unfold sigterm
  split_ifs
  · exact le_refl w.left
  · exact Nat.zero_le w.left
  · exact le_refl w.left

theorem left_orphaned (w : Worker) : w.orphaned.left ≤ w.left := by
  unfold orphaned
  split
  · exact Nat.zero_le w.left
  · exact le_refl w.left

theorem left_sigint (w : Worker) : w.sigint.left ≤ w.left := by
  unfold sigint
  split
  · exact Nat.add_le_add_left (by simp) w.point.left
  · exact le_refl w.left

theorem left_sigint_new {w : Worker} (alive : w.alive = true) (free : w.grouped = false)
    (new : w.int = false) : w.sigint.left < w.left := by
  simp [sigint, left, alive, free, new]

end Worker

namespace Job

variable {n : ℕ} {s t : Job}

def parentLeft (n : ℕ) (s : Job) : ℕ := s.point.left n + if s.isGone || s.int then 0 else 1

/-- A bound on the steps that are left. -/
def left (n : ℕ) (s : Job) : ℕ := s.parentLeft n + ∑ i ∈ Finset.range n, (s.worker i).left

theorem left_lt_parent (parent : t.parentLeft n < s.parentLeft n)
    (workers : ∀ j, (t.worker j).left ≤ (s.worker j).left) : t.left n < s.left n :=
  Nat.add_lt_add_of_lt_of_le parent (Finset.sum_le_sum fun j _ => workers j)

theorem left_lt_worker {i : ℕ} (parent : t.parentLeft n ≤ s.parentLeft n)
    (workers : ∀ j, (t.worker j).left ≤ (s.worker j).left) (inside : i < n)
    (less : (t.worker i).left < (s.worker i).left) : t.left n < s.left n :=
  Nat.add_lt_add_of_le_of_lt parent
    (Finset.sum_lt_sum (fun j _ => workers j) ⟨i, Finset.mem_range.mpr inside, less⟩)

/-- What the parent gives a new worker to do is paid for by the parent. -/
theorem left_lt_born {i : ℕ} (new : ℕ) (parent : t.parentLeft n + new < s.parentLeft n)
    (workers : ∀ j, (t.worker j).left ≤ (s.worker j).left + if j = i then new else 0) :
    t.left n < s.left n := by
  have sum : ∑ j ∈ Finset.range n, (t.worker j).left ≤
      ∑ j ∈ Finset.range n, (s.worker j).left + new := by
    calc ∑ j ∈ Finset.range n, (t.worker j).left
        ≤ ∑ j ∈ Finset.range n, ((s.worker j).left + if j = i then new else 0) :=
          Finset.sum_le_sum fun j _ => workers j
      _ ≤ ∑ j ∈ Finset.range n, (s.worker j).left + new := by
          rw [Finset.sum_add_distrib, Finset.sum_ite_eq']
          split <;> omega
  unfold left
  omega

theorem left_kills (s : Job) (known : Bool) (j : ℕ) :
    ((s.kills known).worker j).left ≤ (s.worker j).left := by
  unfold kills
  split
  · exact (s.worker j).left_sigterm
  · exact le_refl (s.worker j).left

theorem left_set {i : ℕ} {w : Worker} (less : w.left ≤ (s.worker i).left) (j : ℕ) :
    ((s.set i w).worker j).left ≤ (s.worker j).left := by
  by_cases same : j = i
  · subst same
    simpa [set] using less
  · simp [set, same]

theorem Kept.inside (kept : s.Kept n) {i : ℕ} (alive : (s.worker i).alive = true) : i < n := by
  by_contra outside
  have unborn := ((kept.expected i).quits kept.within).2.2 (by omega)
  rw [unborn] at alive
  cases alive

theorem Kept.parent_pos (kept : s.Kept n) (stays : s.isGone = false) : 0 < s.point.left n := by
  have within := kept.within
  cases there : s.point with
  | gone finished =>
      rw [isGone, there] at stays
      cases stays
  | mark =>
      rw [there] at within
      simpa [JobPoint.Within, JobPoint.left] using within
  | _ => simp [JobPoint.left]

end Job

theorem JobStep.lowers {n : ℕ} {s t : Job} {label : JobLabel} (step : JobStep n s label t)
    (kept : s.Kept n) : t.left n < s.left n := by
  have within := kept.within
  cases step with
  | fork there more =>
      rename_i i
      refine Job.left_lt_born (i := i) 4 ?_ fun j => ?_
      · simp only [Job.parentLeft, Job.isGone, Job.set, there, JobPoint.left, Bool.false_or]
        omega
      · by_cases same : j = i
        · subst same
          simp [Job.set, Worker.left, WorkerPoint.left, Worker.alive]
        · simp [Job.set, same]
  | forkFails there more =>
      refine Job.left_lt_parent ?_ (s.left_kills _)
      simp only [Job.parentLeft, Job.isGone, there, JobPoint.left, Bool.true_or, if_true]
      omega
  | group there joins =>
      rename_i i joined
      rw [there] at within
      simp only [JobPoint.Within] at within
      refine Job.left_lt_parent ?_ (Job.left_set (le_refl _))
      by_cases first : i = 0
      · subst first
        simp only [Job.parentLeft, Job.isGone, Job.set, there, JobPoint.left, if_true]
        omega
      · simp only [Job.parentLeft, Job.isGone, Job.set, there, JobPoint.left, first, if_false]
        omega
  | mark there =>
      rw [there] at within
      simp only [JobPoint.Within] at within
      refine Job.left_lt_parent ?_ fun _ => le_refl _
      simp only [Job.parentLeft, Job.isGone, there, JobPoint.left, Bool.false_or]
      omega
  | forked there =>
      refine Job.left_lt_parent ?_ fun _ => le_refl _
      simp only [Job.parentLeft, Job.isGone, there, JobPoint.left, Bool.false_or]
      omega
  | stop there =>
      refine Job.left_lt_parent ?_ fun j => (s.worker j).left_sigstop
      simp only [Job.parentLeft, Job.isGone, there, JobPoint.left, Bool.false_or]
      omega
  | cont there =>
      refine Job.left_lt_parent ?_ fun j => (s.worker j).left_sigcont
      simp only [Job.parentLeft, Job.isGone, there, JobPoint.left, Bool.false_or]
      omega
  | term there =>
      refine Job.left_lt_parent ?_ fun j => (s.worker j).left_sigterm
      simp only [Job.parentLeft, Job.isGone, there, JobPoint.left, Bool.false_or]
      omega
  | wait there more ended =>
      refine Job.left_lt_parent ?_ (Job.left_set ?_)
      · simp only [Job.parentLeft, Job.isGone, Job.set, there, JobPoint.left, Bool.false_or]
        omega
      · simp [Worker.left, WorkerPoint.left, Worker.alive]
  | finish there =>
      refine Job.left_lt_parent ?_ fun _ => le_refl _
      simp only [Job.parentLeft, Job.isGone, there, JobPoint.left, Bool.true_or, if_true]
      omega
  | interrupt come there =>
      have none : Job.parentLeft n { s.kills s.known with point := .gone false } = 0 := by
        simp [Job.parentLeft, Job.isGone, JobPoint.left]
      have some : 0 < s.parentLeft n :=
        (kept.parent_pos there).trans_le (Nat.le_add_right _ _)
      exact Job.left_lt_parent (none.trans_lt some) (s.left_kills _)
  | setDefault there runs =>
      rename_i i
      have alive : (s.worker i).alive = true := by rw [Worker.alive, there]
      have less : ({ s.worker i with point := .grouping } : Worker).left < (s.worker i).left := by
        simp [Worker.left, WorkerPoint.left, Worker.alive, there]
      exact Job.left_lt_worker (le_refl _) (Job.left_set less.le) (kept.inside alive)
        (by simpa [Job.set] using less)
  | setpgid there runs joins =>
      rename_i i joined
      have alive : (s.worker i).alive = true := by rw [Worker.alive, there]
      have less : ({ s.worker i with
          point := .looping, grouped := (s.worker i).grouped || joined } : Worker).left <
            (s.worker i).left := by
        simp [Worker.left, WorkerPoint.left, Worker.alive, there]
      exact Job.left_lt_worker (le_refl _) (Job.left_set less.le) (kept.inside alive)
        (by simpa [Job.set] using less)
  | leave there runs gone =>
      rename_i i
      have alive : (s.worker i).alive = true := by rw [Worker.alive, there]
      exact Job.left_lt_worker (le_refl _) (Job.left_set (Nat.zero_le _)) (kept.inside alive)
        (by simpa [Job.set] using Worker.left_pos alive)
  | handle alive runs come =>
      rename_i i
      refine Job.left_lt_worker (i := i) ?_ (fun j => ?_) (kept.inside alive) ?_
      · unfold Job.kills
        split <;> exact le_refl _
      · by_cases same : j = i
        · subst same
          simp [Job.set]
        · simpa [Job.set, same] using s.left_kills _ j
      · simpa [Job.set] using Worker.left_pos alive
  | ctrlC new =>
      rcases new with ⟨stays, fresh⟩ | ⟨i, alive, free, fresh⟩
      · refine Job.left_lt_parent ?_ fun j => (s.worker j).left_sigint
        have still : ∀ int worker, Job.isGone ⟨s.point, s.known, int, worker⟩ = false :=
          fun _ _ => stays
        simp [Job.parentLeft, still, fresh]
      · refine Job.left_lt_worker (i := i) ?_ (fun j => (s.worker j).left_sigint)
          (kept.inside alive) (Worker.left_sigint_new alive free fresh)
        have still : ∀ int worker, Job.isGone ⟨s.point, s.known, int, worker⟩ = s.isGone :=
          fun _ _ => rfl
        cases gone : s.isGone <;> simp [Job.parentLeft, still, gone]
  | orphan gone alive grouped stopped =>
      rename_i i
      refine Job.left_lt_worker (i := i) (le_refl _) (fun j => (s.worker j).left_orphaned)
        (kept.inside alive) ?_
      simpa [Worker.orphaned, alive, grouped] using Worker.left_pos alive

/-- The parent is gone and no worker is alive, or there is a step to take. -/
theorem job_goes {n : ℕ} {s : Job} (kept : s.Kept n) :
    (∃ label t, JobStep n s label t) ∨
      (∃ finished, s.point = .gone finished) ∧ ∀ i, (s.worker i).alive = false := by
  have within := kept.within
  have joins : ∀ i, ∃ joined, s.Joins i joined := fun i => by
    by_cases able : i = 0 ∨ s.GroupExists
    · exact ⟨true, by simp [Job.Joins, able]⟩
    · exact ⟨false, by simp [Job.Joins, able]⟩
  cases there : s.point with
  | fork i =>
      rw [there] at within
      rcases Nat.lt_or_eq_of_le within with more | rfl
      · exact .inl ⟨_, _, .fork there more⟩
      · exact .inl ⟨_, _, .forked there⟩
  | group i =>
      obtain ⟨_, joins⟩ := joins i
      exact .inl ⟨_, _, .group there joins⟩
  | mark => exact .inl ⟨_, _, .mark there⟩
  | stop => exact .inl ⟨_, _, .stop there⟩
  | cont => exact .inl ⟨_, _, .cont there⟩
  | term => exact .inl ⟨_, _, .term there⟩
  | wait i =>
      rw [there] at within
      rcases Nat.lt_or_eq_of_le within with more | rfl
      · have mine := kept.expected i
        rw [there] at mine
        simp only [Worker.Expected, lt_irrefl, if_false, if_pos more] at mine
        cases ended : (s.worker i).point with
        | zombie ending => exact .inl ⟨_, _, .wait there more ended⟩
        | _ => simp_all [Worker.present, Worker.alive]
      · exact .inl ⟨_, _, .finish there⟩
  | gone finished =>
      have gone : s.isGone = true := by rw [Job.isGone, there]
      by_cases none : ∀ i, (s.worker i).alive = false
      · exact .inr ⟨⟨finished, rfl⟩, none⟩
      · push Not at none
        obtain ⟨i, some⟩ := none
        have alive : (s.worker i).alive = true := by simpa using some
        refine .inl ?_
        cases runs : (s.worker i).stopped with
        | true =>
            have grouped := ((kept.expected i).quits kept.within).2.1 runs
            exact ⟨_, _, .orphan gone alive grouped runs⟩
        | false =>
            cases here : (s.worker i).point with
            | defaulting => exact ⟨_, _, .setDefault here runs⟩
            | grouping =>
                obtain ⟨_, joins⟩ := joins i
                exact ⟨_, _, .setpgid here runs joins⟩
            | looping => exact ⟨_, _, .leave here runs gone⟩
            | _ => simp [Worker.alive, here] at alive

theorem job_over {n : ℕ} {s t : Job} {label : JobLabel} (gone : s.isGone = true)
    (none : ∀ i, (s.worker i).alive = false) : ¬ JobStep n s label t := by
  have dead : ∀ i, (s.worker i).alive ≠ true := fun i => by simp [none]
  intro step
  cases step with
  | fork there | forkFails there | group there | mark there | forked there | stop there
  | cont there | term there | wait there | finish there => simp [Job.isGone, there] at gone
  | interrupt come there => simp [gone] at there
  | setDefault there => exact dead _ (by rw [Worker.alive, there])
  | setpgid there => exact dead _ (by rw [Worker.alive, there])
  | leave there => exact dead _ (by rw [Worker.alive, there])
  | handle alive => exact dead _ alive
  | orphan _ alive => exact dead _ alive
  | ctrlC new =>
      rcases new with ⟨stays, _⟩ | ⟨i, alive, _⟩
      · simp [gone] at stays
      · exact dead i alive

/-- Whatever fails and whenever Ctrl+C comes, the job takes a bounded number of steps, and
    it can take no more exactly where the parent is gone and no worker is left behind. -/
theorem no_worker_left {n : ℕ} {trace : List JobLabel} {s : Job}
    (history : (jobSystem n).Trace trace s) :
    trace.length ≤ 8 * n + 7 ∧
      ((∀ label t, ¬ (jobSystem n).Step s label t) ↔
        s.isGone = true ∧ ∀ i, (s.worker i).alive = false) := by
  refine ⟨?_, fun stuck => ?_, fun ⟨gone, dead⟩ label t => job_over gone dead⟩
  · have bounded : trace.length + s.left n ≤ 8 * n + 7 := by
      refine history.induct (P := fun trace s => trace.length + s.left n ≤ 8 * n + 7) ?_ ?_
      · rintro _ rfl
        simp [Job.start, Job.left, Job.parentLeft, Job.isGone, JobPoint.left, Worker.unborn,
          Worker.left, WorkerPoint.left, Worker.alive]
        omega
      · intro trace s label t before bounded step
        have less := JobStep.lowers step (job_kept ⟨trace, before⟩)
        rw [List.length_append, List.length_singleton]
        omega
    omega
  · obtain ⟨⟨_, there⟩, none⟩ := (job_goes (job_kept ⟨trace, history⟩)).resolve_left
      fun ⟨label, t, step⟩ => stuck label t step
    exact ⟨by rw [Job.isGone, there], none⟩

/-- Ctrl+C before the group is marked: the worker is told by nobody, and leaves by itself. -/
theorem no_worker_left_example :
    ∃ trace s, (jobSystem 1).Trace trace s ∧ s.point = .gone false ∧
      ∀ label t, ¬ (jobSystem 1).Step s label t := by
  have ends : (jobSystem 1).Trace _ _ := ⟨_, rfl, .cons (.fork rfl (by decide)) <|
    .cons (.setDefault (i := 0) rfl rfl) <| .cons (.group rfl (Job.first_joins _)) <|
    .cons (.ctrlC (.inl ⟨rfl, rfl⟩)) <| .cons (.interrupt rfl rfl) <|
    .cons (.setpgid rfl rfl (Job.first_joins _)) <| .single (.leave (i := 0) rfl rfl rfl)⟩
  refine ⟨_, _, ends, rfl, (no_worker_left ends).2.mpr ⟨rfl, fun i => ?_⟩⟩
  by_cases first : i = 0
  · subst first
    rfl
  · simp [Job.set, Job.kills, Job.start, first, Worker.sigint, Worker.unborn, Worker.alive]

end KernelMonitor
