import KernelMonitor.Library.Buckets
import KernelMonitor.SampleOrder

/-! # The process tree

Model of `km_process_tree_build` and its lookups in `src/process/process_monitor.c`.
The children of all processes share one flat array, a slice for each parent.
-/

namespace KernelMonitor

open Library

/-- `km_process_tree`. The roots are `roots[0..root_count)`. -/
structure ProcessTree where
  processes : List ProcessInfo
  count : Nat
  childStart : List Nat
  childCount : List Nat
  childPids : List Int
  roots : List Int

/-- The answers of the allocator: whether there is memory for the four tables, and
    what `malloc` finds in the cells of `child_pids`. -/
structure TreeMemory where
  tables : Bool
  children : Option (Nat → Int)

/-- The index `parent - m->processes` of a process's parent in the sample. -/
def parentIndex (m : ProcessMonitor) (proc : ProcessInfo) : Option Nat :=
  findIn m.processes.cells m.count proc.ppid

/-- The first pass, for one process: `child_count` and `roots`. -/
def countChild (m : ProcessMonitor) (acc : List Nat × List Int) (proc : ProcessInfo) :
    List Nat × List Int :=
  match parentIndex m proc with
  | some p => (bump acc.1 p, acc.2)
  | none => (acc.1, acc.2 ++ [proc.pid])

/-- The second pass, for one process: `fill` and `child_pids`. -/
def placeChild (m : ProcessMonitor) (childStart : List Nat) (acc : List Nat × List Int)
    (proc : ProcessInfo) : List Nat × List Int :=
  match parentIndex m proc with
  | some p => (bump acc.1 p, acc.2.set (childStart.getD p 0 + acc.1.getD p 0) proc.pid)
  | none => acc

/-- The last pass, for one process: a process with PPID 0, or its own parent. -/
def addRoot (roots : List Int) (proc : ProcessInfo) : List Int :=
  if proc.ppid = 0 ∨ proc.ppid = proc.pid then
    if roots.contains proc.pid then roots else roots ++ [proc.pid]
  else roots

/-- `km_process_tree_build`; `none` is its `false`, with everything freed. -/
def processTreeBuild (mem : TreeMemory) (m : ProcessMonitor) : Option ProcessTree :=
  if m.count = 0 then some ⟨m.processes.cells, m.count, [], [], [], []⟩
  else if !mem.tables then none
  else
    let zeros := List.replicate m.count 0
    let (childCount, roots) := m.sample.foldl (countChild m) (zeros, [])
    let (childStart, totalChildren) := childCount.foldl nextOffset ([], 0)
    let childPids :=
      if 0 < totalChildren then mem.children.map fun fill => (List.range totalChildren).map fill
      else some []
    childPids.map fun childPids =>
      let (_, childPids) := m.sample.foldl (placeChild m childStart) (zeros, childPids)
      let roots := m.sample.foldl addRoot roots
      ⟨m.processes.cells, m.count, childStart, childCount, childPids, roots⟩

/-- `km_process_tree_find`: the index of the entry. -/
def ProcessTree.find (tree : ProcessTree) (pid : Int) : Option Nat :=
  findIn tree.processes tree.count pid

/-- `km_process_tree_children`: the `out_count` entries the pointer leads to. -/
def ProcessTree.children (tree : ProcessTree) (pid : Int) : List Int :=
  match tree.find pid with
  | none => []
  | some i =>
      if tree.childCount.getD i 0 = 0 then []
      else (tree.childPids.drop (tree.childStart.getD i 0)).take (tree.childCount.getD i 0)

/-! ## Passes over the sample -/

theorem foldl_countChild (m : ProcessMonitor) (procs : List ProcessInfo) (counts : List Nat)
    (roots : List Int) :
    procs.foldl (countChild m) (counts, roots) =
      (procs.foldl (tally (parentIndex m)) counts,
        roots ++ (procs.filter fun proc => parentIndex m proc = none).map ProcessInfo.pid) := by
  induction procs generalizing counts roots with
  | nil => simp
  | cons proc procs ih =>
      rw [List.foldl_cons, List.foldl_cons, List.filter_cons]
      cases parent : parentIndex m proc with
      | none => simp [countChild, tally, parent, ih]
      | some p => simp [countChild, tally, parent, ih]

theorem placeChild_eq (m : ProcessMonitor) :
    placeChild m = place (parentIndex m) ProcessInfo.pid := rfl

section Parents

variable {m : ProcessMonitor}

theorem parentIndex_none_iff (sorted : KeySorted ProcessInfo.pid m.sample)
    (fits : m.count ≤ m.processes.cells.length) (proc : ProcessInfo) :
    parentIndex m proc = none ↔ proc.ppid ∉ m.sample.map ProcessInfo.pid :=
  findIn_none_iff sorted fits

/-- The children of the entry at an index are the processes that name its PID. -/
theorem parentIndex_some_iff (sorted : KeySorted ProcessInfo.pid m.sample)
    (fits : m.count ≤ m.processes.cells.length) {i : Nat} {parent : ProcessInfo}
    (below : i < m.count) (atI : m.processes.cells[i]? = some parent) (proc : ProcessInfo) :
    parentIndex m proc = some i ↔ proc.ppid = parent.pid := by
  rw [parentIndex, findIn, keyedSearch_eq_some_iff sorted fits]
  constructor
  · intro known
    obtain ⟨_, other, atI', same⟩ := known
    obtain rfl := Option.some.inj (atI.symm.trans atI')
    exact same.symm
  · intro same
    exact ⟨below, parent, atI, same.symm⟩

theorem parentIndex_within (procs : List ProcessInfo) : Within (parentIndex m) m.count procs :=
  fun _ _ _ found => (keyedSearch_sound found).2.1

end Parents

/-! ## Roots -/

theorem addRoot_spec {roots : List Int} (nodup : roots.Nodup) (proc : ProcessInfo) :
    (addRoot roots proc).Nodup ∧ ∀ pid, pid ∈ addRoot roots proc ↔
      pid ∈ roots ∨ proc.pid = pid ∧ (proc.ppid = 0 ∨ proc.ppid = proc.pid) := by
  unfold addRoot
  by_cases top : proc.ppid = 0 ∨ proc.ppid = proc.pid
  · by_cases already : proc.pid ∈ roots
    · simp only [top, if_true, List.contains_iff_mem, already]
      refine ⟨nodup, fun pid => ⟨.inl, ?_⟩⟩
      rintro (member | ⟨rfl, _⟩)
      · exact member
      · exact already
    · simp only [top, if_true, List.contains_iff_mem, already, if_false]
      refine ⟨by simpa using nodup.concat already, fun pid => ?_⟩
      simp only [List.mem_append, List.mem_singleton, and_true, eq_comm]
  · simp only [top, if_false, and_false, or_false]
    exact ⟨nodup, fun _ => trivial⟩

/-- The last pass adds each such process once. -/
theorem foldl_addRoot (procs : List ProcessInfo) {roots : List Int} (nodup : roots.Nodup) :
    (procs.foldl addRoot roots).Nodup ∧
      ∀ pid, pid ∈ procs.foldl addRoot roots ↔
        pid ∈ roots ∨ ∃ proc ∈ procs, proc.pid = pid ∧ (proc.ppid = 0 ∨ proc.ppid = proc.pid) := by
  induction procs generalizing roots with
  | nil => simpa using nodup
  | cons proc procs ih =>
      obtain ⟨kept, added⟩ := addRoot_spec nodup proc
      obtain ⟨distinct, members⟩ := ih kept
      refine ⟨distinct, fun pid => ?_⟩
      rw [List.foldl_cons, members, added, List.exists_mem_cons_iff, or_assoc]

/-! ## The shape -/

/-- What a successful build leaves, pass by pass. -/
theorem processTreeBuild_parts {mem : TreeMemory} {m : ProcessMonitor} {tree : ProcessTree}
    (built : processTreeBuild mem m = some tree) :
    let counts := m.sample.foldl (tally (parentIndex m)) (List.replicate m.count 0)
    let starts := (counts.foldl nextOffset ([], 0)).1
    tree.processes = m.processes.cells ∧ tree.count = m.count ∧ tree.childCount = counts ∧
      tree.childStart = starts ∧
      (∃ cells : List Int, cells.length = counts.sum ∧ tree.childPids =
        (m.sample.foldl (place (parentIndex m) ProcessInfo.pid starts)
          (List.replicate m.count 0, cells)).2) ∧
      tree.roots = m.sample.foldl addRoot
        ((m.sample.filter fun proc => parentIndex m proc = none).map ProcessInfo.pid) := by
  intro counts starts
  have total : (counts.foldl nextOffset ([], 0)).2 = counts.sum := (offsets_spec counts).1
  by_cases empty : m.count = 0
  · have none : m.sample = [] := by rw [ProcessMonitor.sample, empty, List.take_zero]
    have noCounts : counts = [] := by simp only [counts, none, empty]; rfl
    rw [processTreeBuild, if_pos empty] at built
    cases built
    simp only [starts, noCounts, none, true_and]
    exact ⟨rfl, ⟨[], rfl, rfl⟩, rfl⟩
  · rw [processTreeBuild, if_neg empty] at built
    split at built
    · cases built
    · simp only [foldl_countChild, List.nil_append, placeChild_eq] at built
      obtain ⟨cells, allocated, rfl⟩ := Option.map_eq_some_iff.mp built
      refine ⟨rfl, rfl, rfl, rfl, ⟨cells, ?_, rfl⟩, rfl⟩
      rw [← total]
      split at allocated
      · obtain ⟨fill, _, rfl⟩ := Option.map_eq_some_iff.mp allocated
        rw [List.length_map, List.length_range]
      · rename_i childless
        cases allocated
        exact (Nat.eq_zero_of_not_pos childless).symm

theorem length_foldl_place {bucket : ProcessInfo → Option Nat} {starts : List Nat}
    (procs : List ProcessInfo) (acc : List Nat × List Int) :
    (procs.foldl (place bucket ProcessInfo.pid starts) acc).2.length = acc.2.length := by
  induction procs generalizing acc with
  | nil => rfl
  | cons proc procs ih =>
      rw [List.foldl_cons, ih, place]
      split
      · exact List.length_set
      · rfl

section Built

variable {mem : TreeMemory} {m : ProcessMonitor} {tree : ProcessTree}

/-- The slices lie one after the other and fill the flat array. -/
theorem tree_consecutive (built : processTreeBuild mem m = some tree) :
    tree.childCount.length = tree.count ∧
      Consecutive tree.childStart tree.childCount tree.childPids.length := by
  obtain ⟨_, count, childCount, childStart, ⟨cells, size, childPids⟩, _⟩ :=
    processTreeBuild_parts built
  obtain ⟨width, _⟩ := tally_spec (parentIndex_within m.sample)
  rw [childPids, length_foldl_place, childCount, childStart, count, size]
  exact ⟨width, offsets_consecutive _⟩

theorem tree_children (sorted : KeySorted ProcessInfo.pid m.sample)
    (fits : m.count ≤ m.processes.cells.length) (built : processTreeBuild mem m = some tree)
    (pid : Int) :
    tree.children pid =
      if pid ∈ m.sample.map ProcessInfo.pid then
        (m.sample.filter fun proc => proc.ppid = pid).map ProcessInfo.pid
      else [] := by
  obtain ⟨width, _⟩ := tree_consecutive built
  obtain ⟨processes, count, childCount, childStart, ⟨cells, size, childPids⟩, _⟩ :=
    processTreeBuild_parts built
  obtain ⟨length, counted⟩ := tally_spec (parentIndex_within (m := m) m.sample)
  unfold ProcessTree.children ProcessTree.find
  rw [processes, count]
  cases found : findIn m.processes.cells m.count pid with
  | none =>
      have absent : pid ∉ m.sample.map ProcessInfo.pid := (findIn_none_iff sorted fits).mp found
      simp only [absent, if_false]
  | some i =>
      obtain ⟨_, below, parent, atI, rfl⟩ := keyedSearch_sound found
      obtain ⟨other, atI', member, _⟩ := findIn_sound found
      obtain rfl := Option.some.inj (atI.symm.trans atI')
      have slice := place_slice ProcessInfo.pid (offsets_consecutive _)
        (length.symm ▸ parentIndex_within (m := m) m.sample) counted size (i := i) (by omega)
      have same : inBucket (parentIndex m) m.sample i =
          m.sample.filter fun proc => proc.ppid = parent.pid := by
        unfold inBucket
        simp only [parentIndex_some_iff sorted fits below atI]
      have present : parent.pid ∈ m.sample.map ProcessInfo.pid := List.mem_map_of_mem member
      rw [length] at slice
      simp only [present, if_true, ← same, ← slice, childPids, childStart, childCount]
      split
      · rename_i childless
        rw [childless, List.take_zero]
      · rfl

theorem tree_roots (sorted : KeySorted ProcessInfo.pid m.sample)
    (fits : m.count ≤ m.processes.cells.length) (built : processTreeBuild mem m = some tree) :
    tree.roots.Nodup ∧ tree.roots.length ≤ tree.count ∧
      ∀ pid, pid ∈ tree.roots ↔ ∃ proc ∈ m.sample, proc.pid = pid ∧
        (proc.ppid ∉ m.sample.map ProcessInfo.pid ∨ proc.ppid = 0 ∨ proc.ppid = proc.pid) := by
  obtain ⟨_, count, _, _, _, roots⟩ := processTreeBuild_parts built
  have orphans : ((m.sample.filter fun proc => parentIndex m proc = none).map
      ProcessInfo.pid).Nodup :=
    sorted.nodup_keys.sublist ((List.filter_sublist).map _)
  obtain ⟨nodup, members⟩ := foldl_addRoot m.sample orphans
  have exact_members pid : pid ∈ tree.roots ↔ ∃ proc ∈ m.sample, proc.pid = pid ∧
      (proc.ppid ∉ m.sample.map ProcessInfo.pid ∨ proc.ppid = 0 ∨ proc.ppid = proc.pid) := by
    rw [roots, members, List.mem_map]
    simp only [List.mem_filter, decide_eq_true_eq, parentIndex_none_iff sorted fits]
    constructor
    · intro known
      rcases known with ⟨proc, ⟨member, orphan⟩, rfl⟩ | ⟨proc, member, rfl, top⟩
      · exact ⟨proc, member, rfl, .inl orphan⟩
      · exact ⟨proc, member, rfl, .inr top⟩
    · intro known
      obtain ⟨proc, member, rfl, orphan | top⟩ := known
      · exact .inl ⟨proc, ⟨member, orphan⟩, rfl⟩
      · exact .inr ⟨proc, member, rfl, top⟩
  refine ⟨roots ▸ nodup, ?_, exact_members⟩
  have inside : tree.roots ⊆ m.sample.map ProcessInfo.pid := fun pid root => by
    obtain ⟨proc, member, rfl, _⟩ := (exact_members pid).mp root
    exact List.mem_map_of_mem member
  have short := ((roots ▸ nodup : tree.roots.Nodup).subperm inside).length_le
  rw [List.length_map, ProcessMonitor.sample, List.length_take] at short
  omega

end Built

/-- A successful build, for any sorted sample and any parents: the children of a PID
    are the processes that name it as their parent, in ascending order; the slices
    share out the flat array; and the roots are the processes without a parent in
    the sample, with PPID 0, or their own parents, each once. -/
theorem processTreeBuild_shape {mem : TreeMemory} {m : ProcessMonitor} {tree : ProcessTree}
    (sorted : KeySorted ProcessInfo.pid m.sample) (fits : m.count ≤ m.processes.cells.length)
    (built : processTreeBuild mem m = some tree) :
    (∀ pid, tree.children pid =
        if pid ∈ m.sample.map ProcessInfo.pid then
          (m.sample.filter fun proc => proc.ppid = pid).map ProcessInfo.pid
        else []) ∧
      (∀ pid, (tree.children pid).Pairwise (· < ·)) ∧
      (∀ i < tree.count,
        tree.childStart.getD i 0 + tree.childCount.getD i 0 ≤ tree.childPids.length) ∧
      (∀ k < tree.childPids.length, ∃! i, i < tree.count ∧
        tree.childStart.getD i 0 ≤ k ∧ k < tree.childStart.getD i 0 + tree.childCount.getD i 0) ∧
      tree.roots.Nodup ∧ tree.roots.length ≤ tree.count ∧
      ∀ pid, pid ∈ tree.roots ↔ ∃ proc ∈ m.sample, proc.pid = pid ∧
        (proc.ppid ∉ m.sample.map ProcessInfo.pid ∨ proc.ppid = 0 ∨ proc.ppid = proc.pid) := by
  obtain ⟨width, layout⟩ := tree_consecutive built
  have children := tree_children sorted fits built
  refine ⟨children, fun pid => ?_, fun i below => layout.inside i (by omega), fun k below => ?_,
    tree_roots sorted fits built⟩
  · rw [children]
    split
    · exact (keySorted_iff_map.mp sorted).sublist (List.filter_sublist.map _)
    · exact .nil
  · obtain ⟨i, inside, from_start, to_end⟩ := layout.cover k below
    refine ⟨i, ⟨by omega, from_start, to_end⟩, ?_⟩
    rintro j ⟨within, after, before⟩
    rcases lt_trichotomy i j with less | same | more
    · have := layout.apart i j less (by omega)
      omega
    · exact same.symm
    · have := layout.apart j i more inside
      omega

/-! A family: 3 and its child 12, and 7, which is its own parent. -/

def exampleFamily : ProcessMonitor :=
  { ProcessMonitor.init exampleHost with
    processes := ⟨1, [{ ProcessInfo.zero with pid := 3 },
      { ProcessInfo.zero with pid := 7, ppid := 7 },
      { ProcessInfo.zero with pid := 12, ppid := 3 }]⟩
    count := 3
    capacity := 3 }

theorem processTreeBuild_shape_example :
    (processTreeBuild ⟨true, some fun _ => -1⟩ exampleFamily).map
        (fun tree => (tree.roots, tree.children 3, tree.children 7)) = some ([3, 7], [12], [7]) ∧
      ∃ tree, processTreeBuild ⟨true, some fun _ => -1⟩ exampleFamily = some tree ∧
        tree.roots.Nodup ∧ tree.roots.length ≤ tree.count := by
  have sorted : KeySorted ProcessInfo.pid exampleFamily.sample :=
    keySorted_iff_map.mpr (by decide +kernel)
  obtain ⟨tree, built⟩ := Option.isSome_iff_exists.mp
    (by decide +kernel : (processTreeBuild ⟨true, some fun _ => -1⟩ exampleFamily).isSome)
  obtain ⟨_, _, _, _, nodup, short, _⟩ := processTreeBuild_shape sorted (by decide) built
  exact ⟨by decide +kernel, tree, built, nodup, short⟩

end KernelMonitor
