import KernelMonitor.EventLog
import KernelMonitor.SweepReference

/-! # Failed sweeps

`collect` looks neither at the result of the listing nor at that of a push, and a
failed reserve ends its loop. `detect_changes` sees only which PIDs came out, so a
process the sweep never looked at counts as terminated.
-/

namespace KernelMonitor

open Library

/-- The sweep saw that the process is gone: a complete listing does not name it, or
    its `stat` file was tried and could not be read or parsed. -/
def Observed (w : Sweep) (m : ProcessMonitor) (pid : Int) : Prop :=
  (∃ entries, w.dir = some entries ∧ pid ∉ listed entries) ∨
    pid ∈ sweptPids w m ∧ (w.files pid).parses = false

/-- Every PID an update reports as terminated, or drops, was observed to be gone. -/
def TerminationsObserved (tick : Tick) (m : ProcessMonitor) : Prop :=
  ∀ pid,
    .processTerminated ∈ typesOf pid (changes tick.time (collect tick.sweep m)) ∨
        pid ∈ m.sample.map ProcessInfo.pid ∧
          pid ∉ (update tick.sweep tick.time m).sample.map ProcessInfo.pid →
      Observed tick.sweep m pid

/-- The sweep gets to look for every process of the sample: `opendir` succeeds, and
    of the PIDs listed none is lost to a failed push or to the end of the loop. -/
def Sweep.Sees (w : Sweep) (m : ProcessMonitor) : Prop :=
  m.sample = [] ∨ ∃ entries, w.dir = some entries ∧
    ∀ pid ∈ m.sample.map ProcessInfo.pid, pid ∈ listed entries →
      pid ∉ refusedPids w.dir w.growPids m.pids ∧
        (pid ∈ (listPids w.dir w.growPids m.pids).2.items → pid ∈ sweptPids w m)

theorem entry_isSome (m : ProcessMonitor) (w : Sweep) (seconds : ℚ) (pid : Int) :
    (m.entry w seconds pid).isSome = (w.files pid).parses := by
  rw [entry_eq_ref, Option.isSome_map, refReads_isSome]

/-- Who is in the sample after an update. -/
theorem mem_update_sample {tick : Tick} {m : ProcessMonitor} (valid : m.Valid) {pid : Int} :
    pid ∈ (update tick.sweep tick.time m).sample.map ProcessInfo.pid ↔
      pid ∈ sweptPids tick.sweep m ∧ (tick.sweep.files pid).parses := by
  obtain ⟨_, built⟩ := collect_built tick.sweep valid.scratch.cells
  rw [update, publish_sample, built, List.mem_map]
  simp only [List.mem_filterMap]
  constructor
  · intro known
    obtain ⟨info, ⟨other, member, made⟩, rfl⟩ := known
    obtain rfl := entry_pid made
    exact ⟨member, by rw [← entry_isSome m _ (sweepSeconds tick.sweep m), made]; rfl⟩
  · intro known
    obtain ⟨member, parses⟩ := known
    rw [← entry_isSome m _ (sweepSeconds tick.sweep m), Option.isSome_iff_exists] at parses
    obtain ⟨info, made⟩ := parses
    exact ⟨info, ⟨pid, member, made⟩, entry_pid made⟩

/-- A termination is logged exactly for the PIDs an update drops. -/
theorem terminated_iff_dropped {tick : Tick} {m : ProcessMonitor} (valid : m.Valid)
    (lawful : tick.sweep.Lawful m) (pid : Int) :
    .processTerminated ∈ typesOf pid (changes tick.time (collect tick.sweep m)) ↔
      pid ∈ m.sample.map ProcessInfo.pid ∧
        pid ∉ (update tick.sweep tick.time m).sample.map ProcessInfo.pid := by
  rw [typesOf_changes _ (collect_valid valid lawful), collect_sample, update, publish_sample, turn]
  split
  · rename_i came
    simp [came.2]
  · split
    · rename_i went
      simpa using went
    · rename_i stayed
      simpa using stayed

/-- A PID on the list that was swept, or that the listing does not name, is one
    whose termination can only be observed. -/
theorem swept_or_unlisted_iff {w : Sweep} {m : ProcessMonitor} (lawful : w.Lawful m)
    {entries : List Dirent} (pass : w.dir = some entries) (pid : Int) :
    pid ∈ sweptPids w m ∨ pid ∉ listed entries ↔
      (pid ∈ listed entries → pid ∉ refusedPids w.dir w.growPids m.pids ∧
        (pid ∈ (listPids w.dir w.growPids m.pids).2.items → pid ∈ sweptPids w m)) := by
  have onList : pid ∈ (listPids w.dir w.growPids m.pids).2.items ↔
      pid ∈ listed entries ∧ pid ∉ refusedPids w.dir w.growPids m.pids := by
    rw [pass]
    exact mem_listPids (lawful.listing entries pass)
  have inside : pid ∈ sweptPids w m → pid ∈ (listPids w.dir w.growPids m.pids).2.items :=
    fun swept => (reached_isPrefix _ _ _ _).subset swept
  constructor
  · intro known named
    rcases known with swept | unlisted
    · exact ⟨(onList.mp (inside swept)).2, fun _ => swept⟩
    · exact absurd named unlisted
  · intro sees
    by_cases named : pid ∈ listed entries
    · obtain ⟨free, reached⟩ := sees named
      exact .inl (reached (onList.mpr ⟨named, free⟩))
    · exact .inr named

/-- One update observes what it reports exactly when its sweep sees the sample. -/
theorem terminationsObserved_iff {tick : Tick} {m : ProcessMonitor} (valid : m.Valid)
    (lawful : tick.sweep.Lawful m) : TerminationsObserved tick m ↔ tick.sweep.Sees m := by
  have dropped : TerminationsObserved tick m ↔ ∀ pid ∈ m.sample.map ProcessInfo.pid,
      pid ∈ sweptPids tick.sweep m ∨
        ∃ entries, tick.sweep.dir = some entries ∧ pid ∉ listed entries := by
    unfold TerminationsObserved Observed
    refine forall_congr' fun pid => ?_
    rw [terminated_iff_dropped valid lawful, or_self, mem_update_sample valid]
    cases (tick.sweep.files pid).parses with
    | false =>
        simp only [Bool.false_eq_true, and_false, not_false_eq_true, and_true]
        exact imp_congr_right fun _ => or_comm
    | true =>
        simp only [and_true, Bool.true_eq_false, and_false, or_false, and_imp]
        exact imp_congr_right fun _ => or_iff_not_imp_left.symm
  rw [dropped, Sweep.Sees]
  cases pass : tick.sweep.dir with
  | none =>
      have blind : sweptPids tick.sweep m = [] := by
        have empty : (listPids tick.sweep.dir tick.sweep.growPids m.pids).2.items = [] := by
          rw [pass]
          rfl
        exact List.prefix_nil.mp (empty ▸ reached_isPrefix tick.sweep (sweepSeconds tick.sweep m)
          (listPids tick.sweep.dir tick.sweep.growPids m.pids).2.items
          (collectBegin tick.sweep m).2)
      simp [blind, List.eq_nil_iff_forall_not_mem]
  | some entries =>
      have each := swept_or_unlisted_iff lawful pass
      simp only [pass] at each
      simp only [Option.some.injEq, exists_eq_left']
      constructor
      · exact fun seen => .inr fun pid member => (each pid).mp (seen pid member)
      · intro known pid member
        rcases known with empty | sees
        · simp [empty] at member
        · exact (each pid).mpr (sees pid member)

/-- In every run, an update reports only terminations it observed exactly when its
    sweep got to look for every process of the sample before it. An entry of `/proc` that is
    not of the type of a directory, also one of unknown type, names no process here. -/
theorem terminations_observed_iff {host : Host} {trace : List Tick} {m : ProcessMonitor}
    (history : (updateSystem host fun _ _ => True).Trace trace m) :
    ∀ before tick after, trace = before ++ tick :: after →
      (TerminationsObserved tick (runUpdates (.init host) before) ↔
        tick.sweep.Sees (runUpdates (.init host) before)) := by
  intro before tick after whole
  subst whole
  obtain ⟨old, earlier, run⟩ := LabelledSystem.Trace.split history
  obtain ⟨_, ⟨lawful, _⟩, _⟩ := run.first
  rw [updates_state earlier]
  exact terminationsObserved_iff (updates_valid earlier) lawful

theorem terminations_observed_iff_example :
    TerminationsObserved ⟨exampleGone, exampleStamps⟩
        (update exampleSweep exampleStamps (.init exampleHost)) ↔
      exampleGone.Sees (update exampleSweep exampleStamps (.init exampleHost)) :=
  terminations_observed_iff example_departure [⟨exampleSweep, exampleStamps⟩]
    ⟨exampleGone, exampleStamps⟩ [] rfl

/-- `opendir` fails: the sample of the small machine is reported as terminated. -/
theorem failed_listing_terminates :
    ¬ ∀ (host : Host) (trace : List Tick) (m : ProcessMonitor) (tick : Tick),
      (updateSystem host fun _ _ => True).Trace trace m → tick.sweep.Lawful m →
        TerminationsObserved tick m := by
  intro every
  have history : (updateSystem exampleHost fun _ _ => True).Trace
      ([] ++ [⟨exampleSweep, exampleStamps⟩])
      (update exampleSweep exampleStamps (.init exampleHost)) :=
    ⟨_, rfl, .snoc (.refl _) ⟨exampleSweep_lawful, trivial, rfl⟩⟩
  have observed := every _ _ _ ⟨{ exampleSweep with dir := none, growIncoming := fun _ => none },
    exampleStamps⟩ history ⟨by rintro _ ⟨⟩, by rintro _ _ ⟨⟩⟩ 3 (.inl (by decide +kernel))
  rcases observed with ⟨_, ⟨⟩, _⟩ | ⟨swept, _⟩
  revert swept
  decide +kernel

end KernelMonitor
