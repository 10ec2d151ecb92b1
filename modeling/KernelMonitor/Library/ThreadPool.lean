import KernelMonitor.Library.LabelledRun

/-! # Threads over shared memory

The shared memory, and for each thread where it is. A step is a step of one thread. A
sum over the threads changes by what the moving thread contributes, and a sum that
every step lowers bounds all runs.
-/

namespace KernelMonitor.Library

theorem sum_update {ι : Type*} [Fintype ι] [DecidableEq ι] (f : ι → ℕ) (i : ι) (value : ℕ) :
    ∑ j, Function.update f i value j + f i = ∑ j, f j + value := by
  rw [Finset.sum_update_of_mem (Finset.mem_univ i), ← Finset.add_sum_erase _ f (Finset.mem_univ i),
    Finset.sdiff_singleton_eq_erase]
  ring

theorem exists_le_sum_eq {ι : Type*} [Fintype ι] [DecidableEq ι] {f : ι → ℕ} {n : ℕ}
    (enough : n ≤ ∑ i, f i) : ∃ g : ι → ℕ, (∀ i, g i ≤ f i) ∧ ∑ i, g i = n := by
  induction n with
  | zero => exact ⟨fun _ => 0, fun i => Nat.zero_le (f i), by simp⟩
  | succ n ih =>
      obtain ⟨g, below, sum⟩ := ih (Nat.le_of_succ_le enough)
      obtain ⟨i, _, less⟩ := Finset.exists_lt_of_sum_lt (sum.trans_lt enough)
      refine ⟨Function.update g i (g i + 1), fun j => ?_, ?_⟩
      · by_cases same : j = i
        · subst same
          rwa [Function.update_self]
        · rw [Function.update_of_ne same]
          exact below j
      · have changed := sum_update g i (g i + 1)
        omega

/-- Shared memory, and where each thread is. -/
structure Pool (Thread Shared Point : Type*) where
  shared : Shared
  point : Thread → Point

namespace Pool

variable {Thread Shared Point Label : Type*} [DecidableEq Thread]

/-- A thread goes on, and leaves the shared memory as given. -/
def move (p : Pool Thread Shared Point) (i : Thread) (shared : Shared) (point : Point) :
    Pool Thread Shared Point :=
  ⟨shared, Function.update p.point i point⟩

@[simp] theorem move_shared (p : Pool Thread Shared Point) (i : Thread) (shared : Shared)
    (point : Point) : (p.move i shared point).shared = shared := rfl

@[simp] theorem move_self (p : Pool Thread Shared Point) (i : Thread) (shared : Shared)
    (point : Point) : (p.move i shared point).point i = point := by
  simp [move]

theorem move_other (p : Pool Thread Shared Point) {i j : Thread} (other : j ≠ i)
    (shared : Shared) (point : Point) : (p.move i shared point).point j = p.point j := by
  simp [move, other]

theorem move_move (p : Pool Thread Shared Point) (i : Thread) (shared after : Shared)
    (point there : Point) : (p.move i shared point).move i after there = p.move i after there := by
  simp [move]

theorem move_same (p : Pool Thread Shared Point) (i : Thread) :
    p.move i p.shared (p.point i) = p := by
  simp [move]

/-- What a thread's own step keeps of it, and leaves true of the others. -/
theorem forall_move {P : Thread → Point → Prop} {p : Pool Thread Shared Point} {i : Thread}
    {shared : Shared} {point : Point} (own : P i point) (others : ∀ j ≠ i, P j (p.point j)) :
    ∀ j, P j ((p.move i shared point).point j) := by
  intro j
  by_cases same : j = i
  · subst same
    rwa [move_self]
  · rw [move_other p same]
    exact others j same

/-- A pool whose threads take the steps of their program. -/
def system (shared : Shared) (entry : Thread → Point)
    (step : Thread → Shared → Point → Label → Shared → Point → Prop) :
    LabelledSystem (Pool Thread Shared Point) (Thread × Label) where
  Init p := p = ⟨shared, entry⟩
  Step p label next := ∃ after point,
    step label.1 p.shared (p.point label.1) label.2 after point ∧ next = p.move label.1 after point

theorem exists_move {shared : Shared} {entry : Thread → Point}
    {step : Thread → Shared → Point → Label → Shared → Point → Prop}
    {p next : Pool Thread Shared Point} {i : Thread} {label : Label}
    (taken : (system shared entry step).Step p (i, label) next) :
    ∃ after point, step i p.shared (p.point i) label after point ∧ next = p.move i after point :=
  taken

/-- Steps a thread takes while the others wait. -/
theorem own_run {shared : Shared} {entry : Thread → Point}
    (step : Thread → Shared → Point → Label → Shared → Point → Prop)
    {p : Pool Thread Shared Point} {i : Thread} {after : Shared × Point}
    (steps : Relation.ReflTransGen (fun a b => ∃ label, step i a.1 a.2 label b.1 b.2)
      (p.shared, p.point i) after) :
    ∃ trace, (system shared entry step).Run p trace (p.move i after.1 after.2) := by
  induction steps with
  | refl =>
      refine ⟨[], ?_⟩
      rw [p.move_same]
      exact .refl p
  | @tail middle last _ goes ih =>
      obtain ⟨trace, run⟩ := ih
      obtain ⟨label, goes⟩ := goes
      have moved : (system shared entry step).Step (p.move i middle.1 middle.2) (i, label)
          (p.move i last.1 last.2) := by
        refine ⟨last.1, last.2, ?_, (p.move_move i _ _ _ _).symm⟩
        rw [p.move_self]
        exact goes
      exact ⟨_, .snoc run moved⟩

section Part

variable {Shared' Point' Label' : Type*}

/-- A part of what the threads share and are at. -/
def map (f : Shared → Shared') (g : Point → Point') (p : Pool Thread Shared Point) :
    Pool Thread Shared' Point' :=
  ⟨f p.shared, fun i => g (p.point i)⟩

theorem map_move (f : Shared → Shared') (g : Point → Point') (p : Pool Thread Shared Point)
    (i : Thread) (shared : Shared) (point : Point) :
    (p.move i shared point).map f g = (p.map f g).move i (f shared) (g point) := by
  simp only [map, move, mk.injEq, true_and]
  funext j
  exact Function.apply_update (fun _ => g) p.point i point j

/-- Where each step is one of the part or leaves the part alone, a run is one of the part. -/
theorem run_map {shared : Shared} {entry : Thread → Point}
    {step : Thread → Shared → Point → Label → Shared → Point → Prop}
    {shared' : Shared'} {entry' : Thread → Point'}
    {step' : Thread → Shared' → Point' → Label' → Shared' → Point' → Prop}
    (f : Shared → Shared') (g : Point → Point') (forget : Label → Option Label')
    (steps : ∀ i s point label t next, step i s point label t next →
      (∀ seen, forget label = some seen → step' i (f s) (g point) seen (f t) (g next)) ∧
        (forget label = none → f t = f s ∧ g next = g point))
    {p q : Pool Thread Shared Point} {trace : List (Thread × Label)}
    (run : (system shared entry step).Run p trace q) :
    (system shared' entry' step').Run (p.map f g)
      (trace.filterMap fun label => (forget label.2).map (label.1, ·)) (q.map f g) := by
  refine run.project _ _ fun p label next taken => ?_
  obtain ⟨i, label⟩ := label
  obtain ⟨after, point, own, rfl⟩ := exists_move taken
  have seen := steps _ _ _ _ _ _ own
  rw [map_move]
  cases known : forget label with
  | none =>
      obtain ⟨shared, point⟩ := seen.2 known
      simp only [Option.map_none]
      rw [shared, point]
      exact (p.map f g).move_same i
  | some label =>
      simp only [Option.map_some]
      exact ⟨_, _, seen.1 label known, rfl⟩

end Part

section

variable [Fintype Thread]

/-- A sum over the threads. -/
def total (weight : Point → ℕ) (p : Pool Thread Shared Point) : ℕ :=
  ∑ i, weight (p.point i)

theorem total_move (weight : Point → ℕ) (p : Pool Thread Shared Point) (i : Thread)
    (shared : Shared) (point : Point) :
    (p.move i shared point).total weight + weight (p.point i) = p.total weight + weight point := by
  have moved : ∀ j, weight ((p.move i shared point).point j) =
      Function.update (fun j => weight (p.point j)) i (weight point) j := by
    intro j
    by_cases same : j = i
    · subst same
      rw [move_self, Function.update_self]
    · rw [move_other p same, Function.update_of_ne same]
  unfold total
  rw [Finset.sum_congr rfl fun j _ => moved j]
  exact sum_update (fun j => weight (p.point j)) i (weight point)

omit [DecidableEq Thread] in
theorem le_total (weight : Point → ℕ) (p : Pool Thread Shared Point) (i : Thread) :
    weight (p.point i) ≤ p.total weight :=
  Finset.single_le_sum (f := fun j => weight (p.point j)) (fun _ _ => Nat.zero_le _)
    (Finset.mem_univ i)

omit [DecidableEq Thread] in
theorem total_eq_zero {weight : Point → ℕ} {p : Pool Thread Shared Point} :
    p.total weight = 0 ↔ ∀ i, weight (p.point i) = 0 := by
  simp [total]

end

end Pool

namespace LabelledSystem

variable {State Label : Type*} {sys : LabelledSystem State Label}

/-- A measure that every step lowers bounds the runs. -/
theorem Run.bounded {measure : State → ℕ}
    (lowers : ∀ s label t, sys.Step s label t → measure t < measure s) {s trace t}
    (run : Run sys s trace t) : trace.length + measure t ≤ measure s := by
  induction run with
  | refl => simp
  | snoc _ step ih =>
      have lower := lowers _ _ _ step
      rw [List.length_append, List.length_singleton]
      omega

/-- Where there is a way to lower a measure until a goal is reached, there is one to the
    goal. -/
theorem Run.reaches {measure : State → ℕ} {P Goal : State → Prop}
    (able : ∀ s, P s → Goal s ∨ ∃ trace t, Run sys s trace t ∧ P t ∧ measure t < measure s)
    {s} (holds : P s) : ∃ trace t, Run sys s trace t ∧ P t ∧ Goal t := by
  induction left : measure s using Nat.strong_induction_on generalizing s with
  | _ size ih =>
      subst left
      rcases able s holds with goal | ⟨first, t, head, kept, lower⟩
      · exact ⟨[], s, .refl s, holds, goal⟩
      · obtain ⟨second, u, tail, last, goal⟩ := ih _ lower kept rfl
        exact ⟨first ++ second, u, head.append tail, last, goal⟩

end LabelledSystem

end KernelMonitor.Library
