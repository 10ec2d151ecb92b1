import KernelMonitor.Library.LabelledRun

/-! # Infinite runs and fairness

A party of a system is the set of its labels. In a fair run a party that can go on again
and again does go on. What it is bound to reach is shown by a distance that its own steps
shorten and the steps of others do not lengthen.
-/

namespace KernelMonitor.Library.LabelledSystem

variable {State Label : Type*} {sys : LabelledSystem State Label}

/-- An infinite run: a state and the label of the next step for each moment. -/
structure Behaviour (sys : LabelledSystem State Label) where
  state : ℕ → State
  label : ℕ → Label
  step : ∀ n, sys.Step (state n) (label n) (state (n + 1))

/-- Some step of the party is possible. -/
def Enabled (sys : LabelledSystem State Label) (Party : Label → Prop) (s : State) : Prop :=
  ∃ label t, Party label ∧ sys.Step s label t

namespace Behaviour

/-- The labels of so many steps from a moment on. -/
def labels (b : Behaviour sys) (n count : ℕ) : List Label :=
  (List.range count).map fun k => b.label (n + k)

theorem labels_succ (b : Behaviour sys) (n count : ℕ) :
    b.labels n (count + 1) = b.labels n count ++ [b.label (n + count)] := by
  unfold labels
  rw [List.range_succ, List.map_append, List.map_singleton]

theorem labels_add (b : Behaviour sys) (n count more : ℕ) :
    b.labels n (count + more) = b.labels n count ++ b.labels (n + count) more := by
  induction more with
  | zero => simp [labels]
  | succ more ih =>
      rw [← Nat.add_assoc, labels_succ, labels_succ, ih, List.append_assoc, Nat.add_assoc n]

theorem run (b : Behaviour sys) (n count : ℕ) :
    sys.Run (b.state n) (b.labels n count) (b.state (n + count)) := by
  induction count with
  | zero => exact .refl _
  | succ count ih =>
      rw [labels_succ]
      exact .snoc ih (b.step (n + count))

theorem reachable {b : Behaviour sys} (initial : sys.Init (b.state 0)) (n : ℕ) :
    sys.Reachable (b.state n) := by
  refine ⟨b.labels 0 n, b.state 0, initial, ?_⟩
  have run := b.run 0 n
  rwa [Nat.zero_add] at run

/-- What every step keeps holds from a moment on. -/
theorem keeps {b : Behaviour sys} {P : State → Prop}
    (kept : ∀ s label t, sys.Step s label t → P s → P t) {n m : ℕ} (later : n ≤ m)
    (holds : P (b.state n)) : P (b.state m) := by
  induction later with
  | refl => exact holds
  | step _ ih => exact kept _ _ _ (b.step _) ih

/-- A party that can go on again and again goes on. -/
def StronglyFair (b : Behaviour sys) (Party : Label → Prop) : Prop :=
  ∀ n, (∀ m ≥ n, ∃ k ≥ m, sys.Enabled Party (b.state k)) → ∃ m ≥ n, Party (b.label m)

/-- A party that is unable to go on from some moment on is treated fairly. -/
theorem StronglyFair.of_stuck {b : Behaviour sys} {Party : Label → Prop} {last : ℕ}
    (stuck : ∀ m ≥ last, ¬ sys.Enabled Party (b.state m)) : b.StronglyFair Party := by
  intro n again
  obtain ⟨k, later, able⟩ := again (max n last) (le_max_left n last)
  exact absurd able (stuck k ((le_max_right n last).trans later))

/-- One step more at the beginning. -/
def cons (b : Behaviour sys) {s : State} {label : Label} (first : sys.Step s label (b.state 0)) :
    Behaviour sys where
  state
    | 0 => s
    | n + 1 => b.state n
  label
    | 0 => label
    | n + 1 => b.label n
  step
    | 0 => first
    | n + 1 => b.step n

/-- A finite run that leads to the beginning of an infinite one. -/
theorem exists_before (b : Behaviour sys) {s : State} {trace : List Label}
    (run : sys.Run s trace (b.state 0)) :
    ∃ whole : Behaviour sys, whole.state 0 = s ∧ whole.labels 0 trace.length = trace ∧
      ∀ m, whole.state (trace.length + m) = b.state m ∧
        whole.label (trace.length + m) = b.label m := by
  induction trace generalizing s with
  | nil => exact ⟨b, run.nil, rfl, fun m => by simp⟩
  | cons first rest ih =>
      obtain ⟨next, step, run⟩ := run.first
      obtain ⟨whole, rfl, labels, later⟩ := ih run
      refine ⟨whole.cons step, rfl, ?_, fun m => ?_⟩
      · have shifted : ∀ count, (whole.cons step).labels 1 count = whole.labels 0 count := by
          intro count
          refine List.map_congr_left fun k _ => ?_
          rw [Nat.add_comm 1 k, Nat.zero_add]
          rfl
        rw [List.length_cons, Nat.add_comm, labels_add, Nat.zero_add, shifted, labels]
        rfl
      · rw [List.length_cons, Nat.add_right_comm]
        exact later m

/-- A step from a state to itself, taken for ever. -/
def constant {t : State} {label : Label} (stays : sys.Step t label t) : Behaviour sys :=
  ⟨fun _ => t, fun _ => label, fun _ => stays⟩

/-- A round of steps, taken for ever. -/
def rounds {period : ℕ} (state : ℕ → State) (label : ℕ → Label)
    (step : ∀ k < period, sys.Step (state k) (label k) (state ((k + 1) % period)))
    (positive : 0 < period) : Behaviour sys where
  state n := state (n % period)
  label n := label (n % period)
  step n := by
    have next := step (n % period) (Nat.mod_lt n positive)
    rwa [Nat.mod_add_mod] at next

/-- What goes on until a goal is reached goes on at a later moment, if it was not. -/
theorem persists {Going Goal : ℕ → Prop}
    (kept : ∀ n, Going n → (∃ m ≥ n, Goal m) ∨ Going (n + 1)) {n m : ℕ} (later : n ≤ m)
    (going : Going n) : (∃ k ≥ n, Goal k) ∨ Going m := by
  induction later with
  | refl => exact .inr going
  | step before ih =>
      rcases ih with reached | going
      · exact .inl reached
      · rcases kept _ going with ⟨k, after, reached⟩ | going
        · exact .inl ⟨k, Nat.le_trans before after, reached⟩
        · exact .inr going

/-- While `Going` lasts the party comes nearer to the goal with each of its steps, the
    others do not take it further away, and it is never kept from going on for good. -/
structure Nears (b : Behaviour sys) (Party : Label → Prop) (Going Goal : ℕ → Prop)
    (distance : ℕ → ℕ) : Prop where
  kept : ∀ n, Going n → (∃ m ≥ n, Goal m) ∨ Going (n + 1) ∧ distance (n + 1) ≤ distance n
  own : ∀ n, Going n → Party (b.label n) →
    (∃ m ≥ n, Goal m) ∨ distance (n + 1) < distance n
  ready : ∀ n, Going n → (∃ m ≥ n, Goal m) ∨ ∃ m ≥ n, sys.Enabled Party (b.state m)

/-- A fair party reaches what it comes nearer to. -/
theorem StronglyFair.reaches {b : Behaviour sys} {Party : Label → Prop} {Going Goal : ℕ → Prop}
    {distance : ℕ → ℕ} (fair : b.StronglyFair Party) (nears : b.Nears Party Going Goal distance)
    {n : ℕ} (going : Going n) : ∃ m ≥ n, Goal m := by
  induction left : distance n using Nat.strong_induction_on generalizing n with
  | _ size ih =>
      subst left
      by_contra never
      have missed : ∀ m ≥ n, ¬ ∃ k ≥ m, Goal k := fun m later ⟨k, after, reached⟩ =>
        never ⟨k, later.trans after, reached⟩
      -- without the goal it goes on for ever, and no step takes it further away
      have on : ∀ m ≥ n, Going m ∧ distance m ≤ distance n := by
        intro m later
        induction later with
        | refl => exact ⟨going, le_rfl⟩
        | step before ih =>
            rcases nears.kept _ ih.1 with reached | ⟨going, closer⟩
            · exact absurd reached (missed _ before)
            · exact ⟨going, closer.trans ih.2⟩
      have again : ∀ m ≥ n, ∃ k ≥ m, sys.Enabled Party (b.state k) := by
        intro m later
        rcases nears.ready m (on m later).1 with reached | able
        · exact absurd reached (missed m later)
        · exact able
      obtain ⟨m, later, own⟩ := fair n again
      obtain ⟨here, near⟩ := on m later
      rcases nears.own m here own with reached | closer
      · exact missed m later reached
      · have after : n ≤ m + 1 := Nat.le_succ_of_le later
        obtain ⟨k, beyond, reached⟩ :=
          ih (distance (m + 1)) (closer.trans_le near) (on (m + 1) after).1 rfl
        exact missed (m + 1) after ⟨k, beyond, reached⟩

end Behaviour

end KernelMonitor.Library.LabelledSystem
