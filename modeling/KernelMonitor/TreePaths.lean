import KernelMonitor.Library.Forest
import KernelMonitor.ProcessTree

/-! # Ways through the process tree

The roots are chosen by what one process says of its parent. Whether a process can be
reached from them depends on all processes above it: a sweep reads them one after the
other, so that their parents need not fit together.
-/

namespace KernelMonitor

open Library

namespace ProcessMonitor

/-- Both in the sample, the second the parent of the first. -/
def ParentOf (m : ProcessMonitor) (pid parent : Int) : Prop :=
  parent ∈ m.sample.map ProcessInfo.pid ∧
    ∃ info ∈ m.sample, info.pid = pid ∧ info.ppid = parent

/-- A process whose parent is not in the sample. -/
def Orphan (m : ProcessMonitor) (pid : Int) : Prop :=
  ∃ info ∈ m.sample, info.pid = pid ∧ info.ppid ∉ m.sample.map ProcessInfo.pid

/-- A process that is its own ancestor by way of another one. -/
def Circular (m : ProcessMonitor) (pid : Int) : Prop :=
  Relation.TransGen (fun pid parent => m.ParentOf pid parent ∧ parent ≠ pid) pid pid

end ProcessMonitor

/-! ## PIDs in a sample are positive -/

theorem sweptPids_pos {w : Sweep} {m : ProcessMonitor} (lawful : w.Lawful m) {pid : Int}
    (swept : pid ∈ sweptPids w m) : 0 < pid := by
  have items := (reached_isPrefix _ _ _ _).subset swept
  cases dir : w.dir with
  | none => simp [listPids, dir] at items
  | some entries =>
      simp only [dir] at items
      exact listed_pos ((mem_listPids (lawful.listing entries dir)).mp items).1

theorem collect_positive {w : Sweep} {m : ProcessMonitor} (valid : m.Valid)
    (lawful : w.Lawful m) : ∀ info ∈ (collect w m).built, 0 < info.pid := by
  intro info member
  rw [(collect_built w valid.scratch.cells).2] at member
  obtain ⟨pid, swept, made⟩ := List.mem_filterMap.mp member
  exact entry_pid made ▸ sweptPids_pos lawful swept

/-- The directory pass keeps only positive numbers, so no sample has a PID 0. -/
theorem reachable_positive {host : Host} {m : ProcessMonitor}
    (reachable : (monitorSystem host).Reachable m) : ∀ info ∈ m.sample, 0 < info.pid := by
  have both : m.Valid ∧ (∀ info ∈ m.sample, 0 < info.pid) ∧ ∀ info ∈ m.built, 0 < info.pid := by
    apply reachable.invariant (P := fun m => m.Valid ∧ (∀ info ∈ m.sample, 0 < info.pid) ∧
      ∀ info ∈ m.built, 0 < info.pid)
    · intro m start
      subst start
      exact ⟨init_valid host, by simp [ProcessMonitor.sample, ProcessMonitor.init],
        by simp [ProcessMonitor.built, ProcessMonitor.init]⟩
    · intro m call next step known
      obtain ⟨lawful, rfl⟩ := step
      obtain ⟨valid, sample, built⟩ := known
      refine ⟨MonitorCall.apply_valid valid lawful, ?_⟩
      cases call with
      | collect w =>
          exact ⟨(collect_sample w m).symm ▸ sample, collect_positive valid lawful⟩
      | publish time =>
          refine ⟨(publish_sample time m).symm ▸ built, ?_⟩
          simp [MonitorCall.apply, publish_built]
      | update w time =>
          have collected := collect_positive valid lawful
          refine ⟨(publish_sample time (collect w m)).symm ▸ collected, ?_⟩
          simp [MonitorCall.apply, update, publish_built]
  exact both.2.1

theorem reachable_no_zero {host : Host} {m : ProcessMonitor}
    (reachable : (monitorSystem host).Reachable m) : 0 ∉ m.sample.map ProcessInfo.pid := by
  intro present
  obtain ⟨info, member, zero⟩ := List.mem_map.mp present
  exact (reachable_positive reachable info member).ne' zero

/-! ## Children, roots and parents -/

section Built

variable {mem : TreeMemory} {m : ProcessMonitor} {tree : ProcessTree}

theorem same_of_pid (sorted : KeySorted ProcessInfo.pid m.sample)
    {info other : ProcessInfo} (member : info ∈ m.sample) (member' : other ∈ m.sample)
    (same : info.pid = other.pid) : info = other :=
  List.inj_on_of_nodup_map sorted.nodup_keys member member' same

theorem mem_children_iff (sorted : KeySorted ProcessInfo.pid m.sample)
    (fits : m.count ≤ m.processes.cells.length) (built : processTreeBuild mem m = some tree)
    (pid child : Int) : child ∈ tree.children pid ↔ m.ParentOf child pid := by
  rw [tree_children sorted fits built, ProcessMonitor.ParentOf]
  split
  · rename_i present
    simp only [List.mem_map, List.mem_filter, decide_eq_true_eq, and_assoc, present, true_and,
      and_comm]
  · rename_i absent
    simp [absent]

theorem children_nodup (sorted : KeySorted ProcessInfo.pid m.sample)
    (fits : m.count ≤ m.processes.cells.length) (built : processTreeBuild mem m = some tree)
    (pid : Int) : (tree.children pid).Nodup := by
  rw [tree_children sorted fits built]
  split
  · exact sorted.nodup_keys.sublist (List.filter_sublist.map _)
  · exact .nil

theorem parentOf_mem {pid parent : Int} (up : m.ParentOf pid parent) :
    pid ∈ m.sample.map ProcessInfo.pid ∧ parent ∈ m.sample.map ProcessInfo.pid := by
  obtain ⟨present, info, member, rfl, _⟩ := up
  exact ⟨List.mem_map_of_mem member, present⟩

theorem parentOf_unique (sorted : KeySorted ProcessInfo.pid m.sample) {pid a b : Int}
    (first : m.ParentOf pid a) (second : m.ParentOf pid b) : a = b := by
  obtain ⟨_, info, member, rfl, rfl⟩ := first
  obtain ⟨_, other, member', same, rfl⟩ := second
  rw [same_of_pid sorted member' member same]

/-- Without a PID 0 a root has no parent in the sample but perhaps itself. -/
theorem mem_roots_iff (sorted : KeySorted ProcessInfo.pid m.sample)
    (fits : m.count ≤ m.processes.cells.length) (built : processTreeBuild mem m = some tree)
    (noZero : 0 ∉ m.sample.map ProcessInfo.pid) (pid : Int) :
    pid ∈ tree.roots ↔
      pid ∈ m.sample.map ProcessInfo.pid ∧ ∀ parent, m.ParentOf pid parent → parent = pid := by
  rw [(tree_roots sorted fits built).2.2]
  constructor
  · intro known
    obtain ⟨info, member, rfl, chosen⟩ := known
    refine ⟨List.mem_map_of_mem member, fun parent up => ?_⟩
    obtain ⟨present, other, member', same, rfl⟩ := up
    obtain rfl := same_of_pid sorted member' member same
    rcases chosen with absent | zero | own
    · exact absurd present absent
    · exact absurd (zero ▸ present) noZero
    · exact own
  · intro known
    obtain ⟨present, only⟩ := known
    obtain ⟨info, member, rfl⟩ := List.mem_map.mp present
    refine ⟨info, member, rfl, ?_⟩
    by_cases inside : info.ppid ∈ m.sample.map ProcessInfo.pid
    · exact .inr (.inr (only _ ⟨inside, info, member, rfl, rfl⟩))
    · exact .inl inside

end Built

/-! ## Reaching every process -/

/-- Every process of a published sample is in the tree exactly where none is its own
    ancestor by way of another. -/
theorem all_in_tree_iff {host : Host} {mem : TreeMemory} {m : ProcessMonitor} {tree : ProcessTree}
    (reachable : (monitorSystem host).Reachable m) (built : processTreeBuild mem m = some tree) :
    (∀ info ∈ m.sample, ∃ path, PathTo tree.children tree.roots path info.pid) ↔
      ∀ pid, ¬ m.Circular pid := by
  have valid := reachable_valid reachable
  have sorted := valid.sampleSorted
  have fits : m.count ≤ m.processes.cells.length := valid.cells ▸ valid.count
  have noZero := reachable_no_zero reachable
  rw [← List.forall_mem_map (P := fun pid => ∃ path, PathTo tree.children tree.roots path pid)]
  exact all_reached_iff (mem_children_iff sorted fits built) (parentOf_unique sorted) parentOf_mem
    (mem_roots_iff sorted fits built noZero)

/-- As long as PIDs only grow, ancestors have lower ones. -/
theorem ancestor_lower {m : ProcessMonitor} (growing : ∀ info ∈ m.sample, info.ppid < info.pid)
    {pid ancestor : Int}
    (up : Relation.TransGen (fun pid parent => m.ParentOf pid parent ∧ parent ≠ pid) pid ancestor) :
    ancestor < pid := by
  induction up with
  | single step =>
      obtain ⟨⟨_, info, member, rfl, rfl⟩, _⟩ := step
      exact growing info member
  | tail _ step ih =>
      obtain ⟨⟨_, info, member, rfl, rfl⟩, _⟩ := step
      exact (growing info member).trans ih

theorem not_circular_of_growing {m : ProcessMonitor}
    (growing : ∀ info ∈ m.sample, info.ppid < info.pid) (pid : Int) : ¬ m.Circular pid :=
  fun circle => lt_irrefl pid (ancestor_lower growing circle)

/-! Three processes, by what the sweep reads as the parent of 3. With 7 there they are
    each the parent of the other: the parent of 3 has ended after 3 was read, and the next
    process of its PID is a child of 3. -/

def exampleRead (parent : Bytes) : Sweep :=
  { exampleSweep with
    dir := some [⟨text "1", true⟩, ⟨text "3", true⟩, ⟨text "7", true⟩]
    files := fun pid => { unreadable with
      stat := some (
        if pid = 1 then text "1 (init) S 0 1 1 0 -1 0 9 0 0 0 5 1 0 0 20 0 1 0 1 0"
        else if pid = 3 then
          text "3 (sh) S " ++ parent ++ text " 3 3 34816 3 0 20 0 1 0 40 2 0 0 20 0 1 0 5 0"
        else text "7 (vi) S 3 7 3 34816 7 0 20 0 1 0 1 0 0 0 20 0 1 0 900 0") } }

def exampleNested : ProcessMonitor :=
  update (exampleRead (text "1")) exampleStamps (.init exampleHost)

def exampleLost : ProcessMonitor :=
  update (exampleRead (text "7")) exampleStamps (.init exampleHost)

theorem exampleRead_reachable (parent : Bytes) :
    (monitorSystem exampleHost).Reachable
      (update (exampleRead parent) exampleStamps (.init exampleHost)) := by
  have lawful : (exampleRead parent).Lawful (.init exampleHost) :=
    { listing := by
        intro entries listed
        obtain rfl := Option.some.inj listed
        exact ⟨by decide +kernel, by decide +kernel⟩
      fresh := exampleSweep_lawful.fresh }
  have step : (monitorSystem exampleHost).Step (.init exampleHost)
      (.update (exampleRead parent) exampleStamps)
      (update (exampleRead parent) exampleStamps (.init exampleHost)) := ⟨lawful, rfl⟩
  exact ⟨[_], _, rfl, .single step⟩

theorem circle_not_in_tree :
    (monitorSystem exampleHost).Reachable exampleLost ∧
      exampleLost.sample.map (fun info => (info.pid, info.ppid)) = [(1, 0), (3, 7), (7, 3)] ∧
      ∃ tree, processTreeBuild ⟨true, some fun _ => -1⟩ exampleLost = some tree ∧
        ∀ path pid, PathTo tree.children tree.roots path pid → pid = 1 := by
  obtain ⟨tree, built, shape⟩ := Option.map_eq_some_iff.mp
    (by decide +kernel : (processTreeBuild ⟨true, some fun _ => -1⟩ exampleLost).map
      (fun tree => (tree.roots, tree.children 1)) = some ([1], []))
  obtain ⟨roots, children⟩ := Prod.mk.inj shape
  refine ⟨exampleRead_reachable _, by decide +kernel, tree, built, fun path pid found => ?_⟩
  induction found with
  | root listed => exact List.mem_singleton.mp (roots ▸ listed)
  | down _ child ih =>
      rw [ih, children] at child
      cases child

theorem all_in_tree_example :
    ∃ tree, processTreeBuild ⟨true, some fun _ => -1⟩ exampleNested = some tree ∧
      ∃ path, PathTo tree.children tree.roots path 7 := by
  obtain ⟨tree, built⟩ := Option.isSome_iff_exists.mp
    (by decide +kernel : (processTreeBuild ⟨true, some fun _ => -1⟩ exampleNested).isSome)
  obtain ⟨growing, present⟩ : (∀ info ∈ exampleNested.sample, info.ppid < info.pid) ∧
      (7 : Int) ∈ exampleNested.sample.map ProcessInfo.pid := by decide +kernel
  obtain ⟨info, member, seven⟩ := List.mem_map.mp present
  have all := (all_in_tree_iff (exampleRead_reachable _) built).mpr
    (not_circular_of_growing growing)
  exact ⟨tree, built, seven ▸ all info member⟩

end KernelMonitor
