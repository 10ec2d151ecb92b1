import KernelMonitor.Library.ThreadPool

/-! # Threads that add to a shared counter

Model of part 2 of `demo/threadsync.c`, for any number of threads and of increments. An
increment in C is a load and a store; the three threads differ in what they put around
them. The totals that are possible without a lock are all those from 2 on, and the two
fixes leave only one. No total exceeds the one expected, so no `long` overflows.
-/

namespace KernelMonitor

open Library

/-! ## The threads -/

/-- An access to the shared memory. -/
inductive CounterOp where
  | lock
  | load
  | store
  | unlock
  | fetchAdd
  deriving DecidableEq, Repr

/-- `g_unsafe++`, as `volatile` compiles it. -/
def addUnsafe : List CounterOp := [.load, .store]

/-- `g_locked++` inside `g_counter_lock`. -/
def addLocked : List CounterOp := [.lock, .load, .store, .unlock]

/-- `atomic_fetch_add(&g_atomic, 1)` -/
def addAtomic : List CounterOp := [.fetchAdd]

/-- A counter, and who holds the lock. -/
structure Counter (Thread : Type*) where
  value : ℕ
  owner : Option Thread

/-- The iterations a thread has not begun, the rest of the one it is in, and what it loaded. -/
structure Adder where
  left : ℕ
  ops : List CounterOp
  seen : ℕ

/-- Nothing is left to do. -/
def Adder.Finished (a : Adder) : Prop := a.left = 0 ∧ a.ops = []

variable {Thread : Type*}

/-- `none` is the test of the loop that begins another iteration. -/
inductive AdderStep (body : List CounterOp) (i : Thread) :
    Counter Thread → Adder → Option CounterOp → Counter Thread → Adder → Prop where
  | again {c : Counter Thread} {left seen : ℕ} :
      AdderStep body i c ⟨left + 1, [], seen⟩ none c ⟨left, body, seen⟩
  | lock {c : Counter Thread} {left seen : ℕ} {ops : List CounterOp} (free : c.owner = none) :
      AdderStep body i c ⟨left, .lock :: ops, seen⟩ (some .lock) { c with owner := some i }
        ⟨left, ops, seen⟩
  | load {c : Counter Thread} {left seen : ℕ} {ops : List CounterOp} :
      AdderStep body i c ⟨left, .load :: ops, seen⟩ (some .load) c ⟨left, ops, c.value⟩
  | store {c : Counter Thread} {left seen : ℕ} {ops : List CounterOp} :
      AdderStep body i c ⟨left, .store :: ops, seen⟩ (some .store) { c with value := seen + 1 }
        ⟨left, ops, seen⟩
  | unlock {c : Counter Thread} {left seen : ℕ} {ops : List CounterOp} :
      AdderStep body i c ⟨left, .unlock :: ops, seen⟩ (some .unlock) { c with owner := none }
        ⟨left, ops, seen⟩
  | fetchAdd {c : Counter Thread} {left seen : ℕ} {ops : List CounterOp} :
      AdderStep body i c ⟨left, .fetchAdd :: ops, seen⟩ (some .fetchAdd)
        { c with value := c.value + 1 } ⟨left, ops, seen⟩

variable [DecidableEq Thread]

abbrev Counters (Thread : Type*) := Pool Thread (Counter Thread) Adder

/-- `run_counter`: `THREADS` threads, each with `INCREMENTS` iterations. -/
def counterSystem (Thread : Type*) [DecidableEq Thread] (body : List CounterOp)
    (increments : ℕ) : LabelledSystem (Counters Thread) (Thread × Option CounterOp) :=
  Pool.system ⟨0, none⟩ (fun _ => ⟨increments, [], 0⟩) (AdderStep body)

/-- All threads have been joined. -/
def Counters.Finished (p : Counters Thread) : Prop := ∀ i, (p.point i).Finished

/-! ## Every run ends -/

/-- The steps a thread still has to take. -/
def Adder.steps (body : List CounterOp) (a : Adder) : ℕ :=
  a.left * (body.length + 1) + a.ops.length

omit [DecidableEq Thread] in
theorem AdderStep.steps {body : List CounterOp} {i : Thread} {c next : Counter Thread}
    {a after : Adder} {label : Option CounterOp} (step : AdderStep body i c a label next after) :
    after.steps body + 1 = a.steps body := by
  cases step with
  | again =>
      simp only [Adder.steps, List.length_nil]
      ring
  | lock | load | store | unlock | fetchAdd =>
      simp only [Adder.steps, List.length_cons]
      omega

variable [Fintype Thread]

theorem counters_step {body : List CounterOp} {increments : ℕ} {p next : Counters Thread}
    {label : Thread × Option CounterOp}
    (step : (counterSystem Thread body increments).Step p label next) :
    next.total (Adder.steps body) < p.total (Adder.steps body) := by
  obtain ⟨shared, point, step, rfl⟩ := step
  have lower := step.steps
  have moved := p.total_move (Adder.steps body) label.1 shared point
  omega

/-! ## Without a lock -/

/-- Increments not yet stored. -/
def Adder.remaining (a : Adder) : ℕ := a.left + if a.ops = [] then 0 else 1

/-- A thread of the race, when `stored` increments have been stored in all. -/
structure Adder.Races (increments stored value : ℕ) (a : Adder) : Prop where
  shape : a.ops = [] ∨ a.ops = addUnsafe ∨ a.ops = [.store]
  few : a.remaining ≤ increments
  seen : a.ops = [.store] → a.seen ≤ stored
  counted : a.remaining < increments → 1 ≤ value
  loaded : a.ops = [.store] → a.remaining < increments → 1 ≤ a.seen

theorem Adder.Races.later {increments stored value more after : ℕ} {a : Adder}
    (races : a.Races increments stored value) (grows : stored ≤ more)
    (stays : 1 ≤ value → 1 ≤ after) : a.Races increments more after where
  shape := races.shape
  few := races.few
  seen there := (races.seen there).trans grows
  counted some := stays (races.counted some)
  loaded := races.loaded

/-- What holds however the threads interleave. A store in a thread's last iteration puts
    back something it has seen after its own first store. -/
structure Raced (increments : ℕ) (p : Counters Thread) : Prop where
  threads : ∃ stored, stored + p.total Adder.remaining = Fintype.card Thread * increments ∧
    p.shared.value ≤ stored ∧ ∀ i, (p.point i).Races increments stored p.shared.value
  ended : p.total Adder.remaining = 0 → 2 ≤ p.shared.value

theorem Raced.step {increments : ℕ} (twice : 2 ≤ increments) {p next : Counters Thread}
    {label : Thread × Option CounterOp} (raced : Raced increments p)
    (taken : (counterSystem Thread addUnsafe increments).Step p label next) :
    Raced increments next := by
  obtain ⟨i, op⟩ := label
  obtain ⟨shared, point, step, rfl⟩ := Pool.exists_move taken
  obtain ⟨⟨stored, whole, bounded, threads⟩, ended⟩ := raced
  have mine := threads i
  have moved := p.total_move Adder.remaining i shared point
  have own := p.le_total Adder.remaining i
  generalize p.point i = a at step mine moved own
  cases step with
  | @again left old =>
      have same : (⟨left, addUnsafe, old⟩ : Adder).remaining =
          (⟨left + 1, [], old⟩ : Adder).remaining := by
        simp [Adder.remaining, addUnsafe]
      have few := mine.few
      have counted := mine.counted
      rw [← same] at few counted moved
      refine ⟨⟨stored, by omega, bounded, p.forall_move ?_ fun j _ => threads j⟩, ?_⟩
      · exact ⟨.inr (.inl rfl), few, by simp [addUnsafe], counted, by simp [addUnsafe]⟩
      · intro none
        exact ended (by omega)
  | @load left old ops =>
      obtain ⟨shape | shape | shape, few, _, counted, _⟩ := mine <;> cases shape
      have same : (⟨left, [.store], p.shared.value⟩ : Adder).remaining =
          (⟨left, [.load, .store], old⟩ : Adder).remaining := by
        simp [Adder.remaining]
      rw [← same] at few counted moved
      refine ⟨⟨stored, by omega, bounded, p.forall_move ?_ fun j _ => threads j⟩, ?_⟩
      · exact ⟨.inr (.inr rfl), few, fun _ => bounded, counted, fun _ => counted⟩
      · intro none
        exact ended (by omega)
  | @store left old ops =>
      obtain ⟨shape | shape | shape, few, seen, _, loaded⟩ := mine <;> cases shape
      have one : (⟨left, [.store], old⟩ : Adder).remaining = left + 1 := rfl
      have none : (⟨left, [], old⟩ : Adder).remaining = left := rfl
      rw [one] at few moved own loaded
      rw [none] at moved
      have old_le := seen rfl
      refine ⟨⟨stored + 1, by omega, Nat.succ_le_succ old_le, p.forall_move ?_ fun j _ => ?_⟩, ?_⟩
      · exact ⟨.inl rfl, none.le.trans (by omega), by simp, fun _ => Nat.succ_pos old, by simp⟩
      · exact (threads j).later (Nat.le_succ stored) fun _ => Nat.succ_pos old
      · intro none
        have before := loaded rfl (by omega)
        exact Nat.succ_le_succ before
  | lock | unlock | fetchAdd =>
      obtain ⟨shape | shape | shape, _⟩ := mine <;> cases shape

theorem unsafe_raced [Nonempty Thread] {increments : ℕ} (twice : 2 ≤ increments)
    {p : Counters Thread} (reachable : (counterSystem Thread addUnsafe increments).Reachable p) :
    Raced increments p := by
  refine reachable.invariant ?_ fun _ _ _ taken raced => raced.step twice taken
  rintro _ rfl
  have entry : (⟨increments, [], 0⟩ : Adder).remaining = increments := rfl
  have whole : Pool.total Adder.remaining
      (⟨⟨0, none⟩, fun _ => ⟨increments, [], 0⟩⟩ : Counters Thread) =
      Fintype.card Thread * increments := by
    simp [Pool.total, entry]
  refine ⟨⟨0, by rw [whole, Nat.zero_add], le_rfl, fun i => ?_⟩, fun none => ?_⟩
  · exact ⟨.inl rfl, entry.le, by simp, by simp [entry], by simp⟩
  · have positive := Nat.mul_pos (Fintype.card_pos (α := Thread)) (by omega : 0 < increments)
    omega

/-! ## Every total is possible -/

section

variable (increments : ℕ)

omit [Fintype Thread] in
/-- Up to the store of an iteration. -/
theorem load_run {p : Counters Thread} {i : Thread} {left old : ℕ}
    (there : p.point i = ⟨left + 1, [], old⟩) :
    (counterSystem Thread addUnsafe increments).Run p [(i, none), (i, some .load)]
      (p.move i p.shared ⟨left, [.store], p.shared.value⟩) := by
  have begins : (counterSystem Thread addUnsafe increments).Step p (i, none)
      (p.move i p.shared ⟨left, addUnsafe, old⟩) := ⟨_, _, there ▸ .again, rfl⟩
  refine .cons begins (.single ⟨_, _, ?_, (p.move_move i _ _ _ _).symm⟩)
  rw [p.move_self]
  exact .load

omit [Fintype Thread] in
theorem store_step {p : Counters Thread} {i : Thread} {left seen : ℕ}
    (there : p.point i = ⟨left, [.store], seen⟩) :
    (counterSystem Thread addUnsafe increments).Step p (i, some .store)
      (p.move i { p.shared with value := seen + 1 } ⟨left, [], seen⟩) :=
  ⟨_, _, there ▸ .store, rfl⟩

omit [Fintype Thread] in
/-- An iteration that nobody disturbs. -/
theorem increment_run {p : Counters Thread} {i : Thread} {left old : ℕ}
    (there : p.point i = ⟨left + 1, [], old⟩) :
    ∃ trace, (counterSystem Thread addUnsafe increments).Run p trace
      (p.move i { p.shared with value := p.shared.value + 1 } ⟨left, [], p.shared.value⟩) := by
  have waits := p.move_self i p.shared ⟨left, [.store], p.shared.value⟩
  have stores := store_step increments waits
  rw [p.move_move] at stores
  exact ⟨_, .snoc (load_run increments there) stores⟩

/-- Some threads did so many whole iterations each, and nobody else did anything. -/
structure Spent (take : Thread → ℕ) (p q : Counters Thread) : Prop where
  value : q.shared.value = p.shared.value + ∑ i, take i
  ops : ∀ i, (q.point i).ops = (p.point i).ops
  left : ∀ i, (q.point i).left + take i = (p.point i).left
  still : ∀ i, take i = 0 → q.point i = p.point i

/-- Threads between two iterations can do any number of those they have left, one after
    the other. -/
theorem spend_run {p : Counters Thread} {take : Thread → ℕ}
    (able : ∀ i, 0 < take i → (p.point i).ops = [] ∧ take i ≤ (p.point i).left) :
    ∃ trace q, (counterSystem Thread addUnsafe increments).Run p trace q ∧ Spent take p q := by
  induction whole : ∑ i, take i generalizing p take with
  | zero =>
      have none : ∀ i, take i = 0 := by simpa using whole
      exact ⟨[], p, .refl p, by rw [whole, Nat.add_zero], fun _ => rfl,
        fun i => by rw [none i, Nat.add_zero], fun _ _ => rfl⟩
  | succ size ih =>
      have positive : ∑ i, take i ≠ 0 := whole ▸ Nat.succ_ne_zero size
      obtain ⟨i, _, some⟩ := Finset.exists_ne_zero_of_sum_ne_zero positive
      obtain ⟨between, enough⟩ := able i (Nat.pos_of_ne_zero some)
      obtain ⟨more, counted⟩ := Nat.exists_eq_succ_of_ne_zero some
      obtain ⟨left, there⟩ : ∃ left, p.point i = ⟨left + 1, [], (p.point i).seen⟩ := by
        obtain ⟨before, known⟩ := Nat.exists_eq_succ_of_ne_zero (by omega : (p.point i).left ≠ 0)
        exact ⟨before, by rw [← Nat.succ_eq_add_one, ← known, ← between]⟩
      let moved : Counters Thread :=
        p.move i { p.shared with value := p.shared.value + 1 } ⟨left, [], p.shared.value⟩
      obtain ⟨first, once⟩ : ∃ trace,
          (counterSystem Thread addUnsafe increments).Run p trace moved := increment_run increments there
      have others : ∀ j ≠ i, Function.update take i more j = take j :=
        fun j other => Function.update_of_ne other _ _
      have rest : ∑ j, Function.update take i more j = size := by
        have changed := sum_update take i more
        omega
      have still : ∀ j, 0 < Function.update take i more j →
          (moved.point j).ops = [] ∧ Function.update take i more j ≤ (moved.point j).left := by
        intro j positive
        by_cases same : j = i
        · subst same
          rw [there] at enough
          rw [p.move_self, Function.update_self]
          exact ⟨rfl, by simp only at enough ⊢; omega⟩
        · rw [others j same] at positive ⊢
          rw [p.move_other same]
          exact able j positive
      obtain ⟨second, q, later, spent⟩ := ih still rest
      refine ⟨first ++ second, q, once.append later, ?_, fun j => ?_, fun j => ?_, fun j => ?_⟩
      · rw [spent.value, rest, Pool.move_shared, whole]
        simp only
        omega
      · rw [spent.ops j]
        by_cases same : j = i
        · subst same
          rw [p.move_self, there]
        · rw [p.move_other same]
      · have left := spent.left j
        by_cases same : j = i
        · subst same
          rw [p.move_self, Function.update_self] at left
          rw [there]
          simp only at left ⊢
          omega
        · rwa [p.move_other same, others j same] at left
      · intro nothing
        by_cases same : j = i
        · exact absurd nothing (same ▸ some)
        · rw [spent.still j ((others j same).trans nothing), p.move_other same]

/-- A thread that has loaded the counter before the others went on takes back what they
    have stored. -/
theorem clobber_run {p : Counters Thread} (between : ∀ j, (p.point j).ops = []) {i : Thread}
    {take : Thread → ℕ} (more : 0 < (p.point i).left) (own : take i = 0)
    (enough : ∀ j, take j ≤ (p.point j).left) :
    ∃ trace q, (counterSystem Thread addUnsafe increments).Run p trace q ∧
      q.shared.value = p.shared.value + 1 ∧ (∀ j, (q.point j).ops = []) ∧
      ∀ j, (q.point j).left + take j + (if j = i then 1 else 0) = (p.point j).left := by
  obtain ⟨left, known⟩ := Nat.exists_eq_succ_of_ne_zero more.ne'
  have there : p.point i = ⟨left + 1, [], (p.point i).seen⟩ := by
    rw [← Nat.succ_eq_add_one, ← known, ← between i]
  let loaded : Counters Thread := p.move i p.shared ⟨left, [.store], p.shared.value⟩
  have able : ∀ j, 0 < take j → (loaded.point j).ops = [] ∧ take j ≤ (loaded.point j).left := by
    intro j positive
    have other : j ≠ i := by
      rintro rfl
      omega
    rw [p.move_other other]
    exact ⟨between j, enough j⟩
  obtain ⟨trace, q, run, spent⟩ := spend_run increments able
  have waits : q.point i = ⟨left, [.store], p.shared.value⟩ :=
    (spent.still i own).trans (p.move_self i _ _)
  refine ⟨_, _, ((load_run increments there).append run).snoc (store_step increments waits), rfl,
    ?_, fun j => ?_⟩
  · refine Pool.forall_move (P := fun _ (a : Adder) => a.ops = []) rfl fun j other => ?_
    rw [spent.ops j, p.move_other other]
    exact between j
  · by_cases same : j = i
    · subst same
      rw [q.move_self, own, there, if_pos rfl]
    · have left := spent.left j
      rw [p.move_other same] at left
      rw [q.move_other same, if_neg same]
      exact left

end

theorem sum_clobbered {left take before : Thread → ℕ} {i : Thread}
    (each : ∀ j, left j + take j + (if j = i then 1 else 0) = before j) :
    ∑ j, left j + ∑ j, take j + 1 = ∑ j, before j := by
  rw [← Finset.sum_congr rfl fun j _ => each j, Finset.sum_add_distrib, Finset.sum_add_distrib,
    Finset.sum_ite_eq', if_pos (Finset.mem_univ i)]

/-- What is lost before the first stale store and what is lost before the second. -/
structure Losses (increments : ℕ) (a b : Thread) (wasted : ℕ) (early late : Thread → ℕ) : Prop where
  first : early a = 0
  waits : early b < increments
  within : ∀ j, early j ≤ increments
  others : ∀ j ≠ a, late j = 0
  mine : late a < increments
  sum : ∑ j, early j + ∑ j, late j = wasted

theorem exists_losses {a b : Thread} (apart : a ≠ b) {increments : ℕ} (twice : 2 ≤ increments)
    {wasted : ℕ} (few : wasted + 2 ≤ Fintype.card Thread * increments) :
    ∃ early late, Losses increments a b wasted early late := by
  let cap := Function.update (Function.update (fun _ => increments) a 0) b (increments - 1)
  have room : ∑ i, cap i + increments + 1 = Fintype.card Thread * increments := by
    have first := sum_update (fun _ : Thread => increments) a 0
    have second : ∑ i, cap i + Function.update (fun _ => increments) a 0 b = _ :=
      sum_update (Function.update (fun _ => increments) a 0) b (increments - 1)
    have several : 2 * increments ≤ Fintype.card Thread * increments :=
      Nat.mul_le_mul_right increments (Fintype.one_lt_card_iff.mpr ⟨a, b, apart⟩)
    rw [Function.update_of_ne apart.symm] at second
    simp only [Finset.sum_const, Finset.card_univ, smul_eq_mul] at first second
    omega
  have capA : cap a = 0 := by simp [cap, apart]
  have capB : cap b = increments - 1 := by simp [cap]
  have capLe : ∀ j, cap j ≤ increments := by
    intro j
    by_cases isB : j = b
    · rw [isB, capB]
      exact Nat.sub_le increments 1
    · by_cases isA : j = a
      · rw [isA, capA]
        exact Nat.zero_le increments
      · simp [cap, isA, isB]
  obtain ⟨early, below, sum⟩ := exists_le_sum_eq (min_le_right wasted (∑ i, cap i))
  have firstA := below a
  have firstB := below b
  let late := Function.update (fun _ : Thread => 0) a (wasted - min wasted (∑ i, cap i))
  have lateA : late a = wasted - min wasted (∑ i, cap i) := by simp [late]
  have lateSum : ∑ i, late i = wasted - min wasted (∑ i, cap i) := by
    have changed := sum_update (fun _ : Thread => 0) a (wasted - min wasted (∑ i, cap i))
    simpa using changed
  exact ⟨early, late, by omega, by omega, fun j => (below j).trans (capLe j),
    fun j other => by simp [late, other], by omega, by omega⟩

/-- Two stale stores leave 2 of everything done so far, and the rest is counted. -/
theorem unsafe_total_attained {a b : Thread} (apart : a ≠ b) {increments : ℕ}
    (twice : 2 ≤ increments) {total : ℕ} (low : 2 ≤ total)
    (high : total ≤ Fintype.card Thread * increments) :
    ∃ trace p, (counterSystem Thread addUnsafe increments).Trace trace p ∧ p.Finished ∧
      p.shared.value = total := by
  let start : Counters Thread := ⟨⟨0, none⟩, fun _ => ⟨increments, [], 0⟩⟩
  obtain ⟨wasted, whole⟩ := Nat.exists_eq_add_of_le high
  have few : wasted + 2 ≤ Fintype.card Thread * increments := by omega
  obtain ⟨early, late, losses⟩ := exists_losses apart twice few
  have idle : ∀ j, (start.point j).ops = [] := fun _ => rfl
  have begins : 0 < (start.point a).left := by
    simp only [start]
    omega
  obtain ⟨first, p, toP, one, between, left⟩ :=
    clobber_run increments idle begins losses.first losses.within
  have goesOn : 0 < (p.point b).left := by
    have leftB := left b
    have waits := losses.waits
    rw [if_neg apart.symm] at leftB
    simp only [start] at leftB
    omega
  have enough : ∀ j, late j ≤ (p.point j).left := by
    intro j
    by_cases same : j = a
    · subst same
      have leftA := left j
      have mine := losses.mine
      rw [if_pos rfl, losses.first] at leftA
      simp only [start] at leftA
      omega
    · rw [losses.others j same]
      exact Nat.zero_le _
  obtain ⟨second, q, toQ, two, rests, leftLate⟩ :=
    clobber_run increments between goesOn (losses.others b apart.symm) enough
  have able : ∀ j, 0 < (q.point j).left → (q.point j).ops = [] ∧ (q.point j).left ≤ (q.point j).left :=
    fun j _ => ⟨rests j, le_rfl⟩
  obtain ⟨third, last, toLast, spent⟩ := spend_run increments able
  refine ⟨_, last, ⟨start, rfl, (toP.append toQ).append toLast⟩, fun j => ?_, ?_⟩
  · have left := spent.left j
    exact ⟨by omega, (spent.ops j).trans (rests j)⟩
  · have afterFirst := sum_clobbered left
    have afterSecond := sum_clobbered leftLate
    have sum := losses.sum
    simp only [start, Finset.sum_const, Finset.card_univ, smul_eq_mul] at afterFirst
    rw [spent.value, two, one]
    simp only [start]
    omega

/-- The totals that threads without a lock can end with are exactly those from 2 up to what
    they should have reached. -/
theorem unsafe_totals (several : 2 ≤ Fintype.card Thread) {increments : ℕ}
    (twice : 2 ≤ increments) (total : ℕ) :
    (∃ trace p, (counterSystem Thread addUnsafe increments).Trace trace p ∧ p.Finished ∧
      p.shared.value = total) ↔ 2 ≤ total ∧ total ≤ Fintype.card Thread * increments := by
  obtain ⟨a, b, apart⟩ := Fintype.one_lt_card_iff.mp several
  constructor
  · rintro ⟨trace, p, history, finished, rfl⟩
    have some : Nonempty Thread := ⟨a⟩
    obtain ⟨⟨stored, whole, bounded, _⟩, ended⟩ := unsafe_raced twice ⟨trace, history⟩
    have none : p.total Adder.remaining = 0 := by
      refine Pool.total_eq_zero.mpr fun i => ?_
      rw [Adder.remaining, (finished i).1, (finished i).2]
      rfl
    exact ⟨ended none, by omega⟩
  · rintro ⟨low, high⟩
    exact unsafe_total_attained apart twice low high

/-- Two threads with two increments each can lose two of the four. -/
theorem unsafe_totals_example :
    ∃ trace p, (counterSystem (Fin 2) addUnsafe 2).Trace trace p ∧ p.Finished ∧
      p.shared.value = 2 :=
  (unsafe_totals (by decide) le_rfl 2).mpr (by decide)

/-! ## The two fixes -/

/-- Increments that are not yet in the counter. -/
def Adder.pending (a : Adder) : ℕ := a.left + if .store ∈ a.ops ∨ .fetchAdd ∈ a.ops then 1 else 0

/-- Between `pthread_mutex_lock` and `pthread_mutex_unlock`. -/
def Adder.Inside (a : Adder) : Prop := a.ops ≠ [] ∧ a.ops ≠ addLocked

/-- A thread under the lock: where it is, and what it has loaded is still there. -/
inductive Adder.Locks (owned : Prop) (value : ℕ) : Adder → Prop where
  | between {left seen : ℕ} (out : ¬ owned) : Adder.Locks owned value ⟨left, [], seen⟩
  | waiting {left seen : ℕ} (out : ¬ owned) : Adder.Locks owned value ⟨left, addLocked, seen⟩
  | locked {left seen : ℕ} (inside : owned) :
      Adder.Locks owned value ⟨left, [.load, .store, .unlock], seen⟩
  | loaded {left : ℕ} (inside : owned) : Adder.Locks owned value ⟨left, [.store, .unlock], value⟩
  | stored {left seen : ℕ} (inside : owned) : Adder.Locks owned value ⟨left, [.unlock], seen⟩

theorem Adder.Locks.inside_iff {owned : Prop} {value : ℕ} {a : Adder} (locks : a.Locks owned value) :
    a.Inside ↔ owned := by
  cases locks with
  | between out | waiting out => simp [Adder.Inside, out]
  | locked inside | loaded inside | stored inside => simp [Adder.Inside, addLocked, inside]

/-- A thread that does not hold the lock does not look at the counter. -/
theorem Adder.Locks.outside {owned after : Prop} {value more : ℕ} {a : Adder}
    (locks : a.Locks owned value) (out : ¬ owned) (still : ¬ after) : a.Locks after more := by
  cases locks with
  | between => exact .between still
  | waiting => exact .waiting still
  | locked inside | loaded inside | stored inside => exact absurd inside out

/-- Every increment is in the counter or still to come. -/
def Counters.Exact (increments : ℕ) (p : Counters Thread) : Prop :=
  p.shared.value + p.total Adder.pending = Fintype.card Thread * increments

theorem Counters.Exact.moved {increments : ℕ} {p : Counters Thread} (exact_ : p.Exact increments)
    {i : Thread} {shared : Counter Thread} {point : Adder}
    (same : shared.value + point.pending = p.shared.value + (p.point i).pending) :
    Counters.Exact increments (p.move i shared point) := by
  have moved := p.total_move Adder.pending i shared point
  unfold Counters.Exact at exact_ ⊢
  rw [p.move_shared]
  omega

def Counters.Locked (p : Counters Thread) : Prop :=
  ∀ i, (p.point i).Locks (p.shared.owner = some i) p.shared.value

theorem locked_step {increments : ℕ} {p next : Counters Thread}
    {label : Thread × Option CounterOp}
    (taken : (counterSystem Thread addLocked increments).Step p label next)
    (counted : p.Exact increments) (locked : p.Locked) : next.Exact increments ∧ next.Locked := by
  obtain ⟨i, op⟩ := label
  obtain ⟨shared, point, step, rfl⟩ := Pool.exists_move taken
  have mine := locked i
  have moved : shared.value + point.pending = p.shared.value + (p.point i).pending →
      Counters.Exact increments (p.move i shared point) := counted.moved
  generalize p.point i = a at step mine moved
  have out : p.shared.owner = some i ∨ p.shared.owner = none → ∀ j ≠ i,
      p.shared.owner ≠ some j := by
    rintro (held | free) j other
    · rw [held]
      exact fun same => other (Option.some.inj same).symm
    · rw [free]
      simp
  cases step with
  | again =>
      cases mine with
      | between outside =>
          exact ⟨moved (by simp [Adder.pending, addLocked]),
            p.forall_move (.waiting outside) fun j _ => locked j⟩
  | lock free =>
      cases mine with
      | waiting =>
          refine ⟨moved (by simp [Adder.pending]), p.forall_move (.locked rfl) fun j other => ?_⟩
          exact (locked j).outside (out (.inr free) j other)
            fun same => other (Option.some.inj same).symm
  | load =>
      cases mine with
      | locked inside =>
          exact ⟨moved (by simp [Adder.pending]),
            p.forall_move (.loaded inside) fun j _ => locked j⟩
  | store =>
      cases mine with
      | loaded inside =>
          refine ⟨moved (by simp [Adder.pending]; omega),
            p.forall_move (.stored inside) fun j other => ?_⟩
          exact (locked j).outside (out (.inl inside) j other) (out (.inl inside) j other)
  | unlock =>
      cases mine with
      | stored inside =>
          refine ⟨moved (by simp [Adder.pending]), p.forall_move (.between (by simp)) fun j other => ?_⟩
          exact (locked j).outside (out (.inl inside) j other) (by simp)
  | fetchAdd => cases mine

theorem atomic_step {increments : ℕ} {p next : Counters Thread}
    {label : Thread × Option CounterOp}
    (taken : (counterSystem Thread addAtomic increments).Step p label next)
    (counted : p.Exact increments)
    (atomic : ∀ i, (p.point i).ops = [] ∨ (p.point i).ops = addAtomic) :
    next.Exact increments ∧ ∀ i, (next.point i).ops = [] ∨ (next.point i).ops = addAtomic := by
  obtain ⟨i, op⟩ := label
  obtain ⟨shared, point, step, rfl⟩ := Pool.exists_move taken
  have mine := atomic i
  have moved : shared.value + point.pending = p.shared.value + (p.point i).pending →
      Counters.Exact increments (p.move i shared point) := counted.moved
  have others (own : point.ops = [] ∨ point.ops = addAtomic) :
      ∀ j, ((p.move i shared point).point j).ops = [] ∨
        ((p.move i shared point).point j).ops = addAtomic :=
    Pool.forall_move (P := fun _ (a : Adder) => a.ops = [] ∨ a.ops = addAtomic) own fun j _ => atomic j
  generalize p.point i = a at step mine moved
  cases step with
  | again => exact ⟨moved (by simp [Adder.pending, addAtomic]), others (.inr rfl)⟩
  | fetchAdd =>
      rcases mine with mine | mine <;> cases mine
      exact ⟨moved (by simp [Adder.pending]; omega), others (.inl rfl)⟩
  | lock | load | store | unlock => rcases mine with mine | mine <;> cases mine

/-- The two fixes, and what holds of them throughout. -/
inductive Fixed (increments : ℕ) : List CounterOp → Counters Thread → Prop where
  | locked {p : Counters Thread} (counted : p.Exact increments) (locked : p.Locked) :
      Fixed increments addLocked p
  | atomic {p : Counters Thread} (counted : p.Exact increments)
      (atomic : ∀ i, (p.point i).ops = [] ∨ (p.point i).ops = addAtomic) :
      Fixed increments addAtomic p

namespace Fixed

variable {increments : ℕ} {body : List CounterOp} {p next : Counters Thread}

omit [DecidableEq Thread] in
theorem start (fix : body = addLocked ∨ body = addAtomic) :
    Fixed increments body (⟨⟨0, none⟩, fun _ => ⟨increments, [], 0⟩⟩ : Counters Thread) := by
  have counted : Counters.Exact increments
      (⟨⟨0, none⟩, fun _ => ⟨increments, [], 0⟩⟩ : Counters Thread) := by
    simp [Counters.Exact, Pool.total, Adder.pending]
  rcases fix with rfl | rfl
  · exact .locked counted fun i => .between (by simp)
  · exact .atomic counted fun i => .inl rfl

theorem step {label : Thread × Option CounterOp} (fixed : Fixed increments body p)
    (taken : (counterSystem Thread body increments).Step p label next) :
    Fixed increments body next := by
  cases fixed with
  | locked counted locked =>
      obtain ⟨counted, locked⟩ := locked_step taken counted locked
      exact .locked counted locked
  | atomic counted atomic =>
      obtain ⟨counted, atomic⟩ := atomic_step taken counted atomic
      exact .atomic counted atomic

omit [DecidableEq Thread] in
theorem counted (fixed : Fixed increments body p) : p.Exact increments := by
  cases fixed with
  | locked counted | atomic counted => exact counted

/-- Somebody can go on until everybody has finished. -/
theorem able (fixed : Fixed increments body p) :
    p.Finished ∨ ∃ label next, (counterSystem Thread body increments).Step p label next := by
  by_cases finished : p.Finished
  · exact .inl finished
  · right
    obtain ⟨i, unfinished⟩ := not_forall.mp finished
    have goes (j : Thread) (a : Adder) (there : p.point j = a) {op : Option CounterOp}
        {shared : Counter Thread} {point : Adder}
        (step : AdderStep body j p.shared a op shared point) :
        ∃ label next, (counterSystem Thread body increments).Step p label next :=
      ⟨(j, op), _, _, _, there ▸ step, rfl⟩
    cases fixed with
    | locked _ locked =>
        cases held : p.shared.owner with
        | some j =>
            have holder := locked j
            generalize there : p.point j = a at holder
            cases holder with
            | between out | waiting out => exact absurd held out
            | locked => exact goes j _ there .load
            | loaded => exact goes j _ there .store
            | stored => exact goes j _ there .unlock
        | none =>
            have mine := locked i
            generalize there : p.point i = a at mine unfinished
            cases mine with
            | @between left =>
                cases left with
                | zero => exact absurd ⟨rfl, rfl⟩ unfinished
                | succ => exact goes i _ there .again
            | waiting => exact goes i _ there (.lock held)
            | locked inside | loaded inside | stored inside =>
                rw [held] at inside
                cases inside
    | atomic _ atomic =>
        have mine := atomic i
        generalize there : p.point i = a at mine unfinished
        obtain ⟨left, ops, seen⟩ := a
        rcases mine with mine | mine <;> cases mine
        · cases left with
          | zero => exact absurd ⟨rfl, rfl⟩ unfinished
          | succ => exact goes i _ there .again
        · exact goes i _ there .fetchAdd

end Fixed

/-- With the mutex, and with the atomic addition, no update is lost in any run. Threads
    are inside the critical section one at a time, every run ends after so many steps,
    and none gets stuck before. -/
theorem fixed_totals {body : List CounterOp} (fix : body = addLocked ∨ body = addAtomic)
    {increments : ℕ} {trace : List (Thread × Option CounterOp)} {p : Counters Thread}
    (history : (counterSystem Thread body increments).Trace trace p) :
    (p.Finished → p.shared.value = Fintype.card Thread * increments) ∧
      (body = addLocked → ∀ i j, (p.point i).Inside → (p.point j).Inside → i = j) ∧
      trace.length ≤ Fintype.card Thread * (increments * (body.length + 1)) ∧
      ∃ more last, (counterSystem Thread body increments).Run p more last ∧ last.Finished := by
  obtain ⟨start, rfl, run⟩ := history
  have fixed : Fixed increments body p :=
    run.keeps (fun _ _ _ taken fixed => fixed.step taken) (Fixed.start fix)
  refine ⟨fun finished => ?_, fun locks i j mine theirs => ?_, ?_, ?_⟩
  · have counted := fixed.counted
    have none : p.total Adder.pending = 0 := by
      refine Pool.total_eq_zero.mpr fun i => ?_
      simp [Adder.pending, (finished i).1, (finished i).2]
    unfold Counters.Exact at counted
    omega
  · cases fixed with
    | atomic => cases locks
    | locked _ locked =>
        have held := (locked i).inside_iff.mp mine
        have same := (locked j).inside_iff.mp theirs
        exact Option.some.inj (held.symm.trans same)
  · have bounded := run.bounded fun _ _ _ taken => counters_step taken
    have steps : Pool.total (Adder.steps body)
        (⟨⟨0, none⟩, fun _ => ⟨increments, [], 0⟩⟩ : Counters Thread) =
        Fintype.card Thread * (increments * (body.length + 1)) := by
      simp [Pool.total, Adder.steps]
    omega
  · have able : ∀ p : Counters Thread, Fixed increments body p → p.Finished ∨
        ∃ trace next, (counterSystem Thread body increments).Run p trace next ∧
          Fixed increments body next ∧
          next.total (Adder.steps body) < p.total (Adder.steps body) := by
      intro p fixed
      rcases fixed.able with finished | ⟨label, next, taken⟩
      · exact .inl finished
      · exact .inr ⟨_, next, .single taken, fixed.step taken, counters_step taken⟩
    obtain ⟨more, last, run, _, finished⟩ := LabelledSystem.Run.reaches able fixed
    exact ⟨more, last, run, finished⟩

/-- Four threads with 1000000 increments each, as the demonstration has it. -/
theorem fixed_totals_example :
    ∃ trace last, (counterSystem (Fin 4) addLocked 1000000).Trace trace last ∧ last.Finished ∧
      last.shared.value = 4000000 := by
  have start : (counterSystem (Fin 4) addLocked 1000000).Trace [] _ := ⟨_, rfl, .refl _⟩
  obtain ⟨trace, last, run, finished⟩ := (fixed_totals (.inl rfl) start).2.2.2
  have history : (counterSystem (Fin 4) addLocked 1000000).Trace trace last := ⟨_, rfl, run⟩
  have total := (fixed_totals (.inl rfl) history).1 finished
  exact ⟨trace, last, history, finished, by rw [total, Fintype.card_fin]⟩

end KernelMonitor
