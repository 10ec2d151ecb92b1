import KernelMonitor.TreeView

/-! # Each process on its line

What the window shows of the processes below an orphan. They come before all others,
since the roots that are their own parents go to the end of `roots`, so that no circle
in the same sample gets in their way.
-/

namespace KernelMonitor

open Library

/-- One line shows the process, as deep as it has ancestors, below the line of its parent
    and with nothing between the two but deeper lines. -/
def ShownOnce (lines : List TreeRow) (pid : Int) (above : List Int) : Prop :=
  ∃ before line after, lines = before ++ line :: after ∧
    line.pid = pid ∧ line.depth = above.length ∧
    (∀ other ∈ before ++ after, other.pid ≠ pid) ∧
    ∀ parent ∈ above.getLast?, ∃ front parentLine between,
      before = front ++ parentLine :: between ∧ parentLine.pid = parent ∧
        parentLine.depth + 1 = line.depth ∧ ∀ other ∈ between, line.depth ≤ other.depth

section Built

variable {mem : TreeMemory} {m : ProcessMonitor} {tree : ProcessTree}

theorem tree_entry (sorted : KeySorted ProcessInfo.pid m.sample)
    (fits : m.count ≤ m.processes.cells.length) (built : processTreeBuild mem m = some tree)
    {pid : Int} (present : pid ∈ m.sample.map ProcessInfo.pid) :
    ∃ p, tree.entry pid = some p ∧ p.pid = pid := by
  obtain ⟨processes, count, _⟩ := processTreeBuild_parts built
  rw [ProcessTree.entry, ProcessTree.find, processes, count]
  cases found : findIn m.processes.cells m.count pid with
  | none => exact absurd present ((findIn_none_iff sorted fits).mp found)
  | some i =>
      obtain ⟨p, atI, _, same⟩ := findIn_sound found
      exact ⟨p, atI, same⟩

theorem tree_closed (sorted : KeySorted ProcessInfo.pid m.sample)
    (fits : m.count ≤ m.processes.cells.length) (built : processTreeBuild mem m = some tree) :
    tree.Closed := by
  constructor
  · intro pid root
    obtain ⟨info, member, rfl, _⟩ := ((tree_roots sorted fits built).2.2 pid).mp root
    exact tree_entry sorted fits built (List.mem_map_of_mem member)
  · intro parent pid child
    have up := (mem_children_iff sorted fits built parent pid).mp child
    exact tree_entry sorted fits built (parentOf_mem up).1

theorem foldl_addRoot_append (procs : List ProcessInfo) (roots : List Int) :
    ∃ others, procs.foldl addRoot roots = roots ++ others := by
  induction procs generalizing roots with
  | nil => exact ⟨[], by simp⟩
  | cons proc procs ih =>
      obtain ⟨others, added⟩ := ih (addRoot roots proc)
      rw [List.foldl_cons, added, addRoot]
      split
      · split
        · exact ⟨others, rfl⟩
        · exact ⟨proc.pid :: others, by simp⟩
      · exact ⟨others, rfl⟩

/-- The orphans are the first roots. -/
theorem tree_parented (sorted : KeySorted ProcessInfo.pid m.sample)
    (fits : m.count ≤ m.processes.cells.length) (built : processTreeBuild mem m = some tree)
    (noZero : 0 ∉ m.sample.map ProcessInfo.pid) :
    ∃ tops others, tree.roots = tops ++ others ∧
      Parented tree.children tops others m.Orphan m.ParentOf := by
  obtain ⟨_, _, _, _, _, roots⟩ := processTreeBuild_parts built
  obtain ⟨others, added⟩ := foldl_addRoot_append m.sample
    ((m.sample.filter fun proc => parentIndex m proc = none).map ProcessInfo.pid)
  have highest (pid : Int) :
      pid ∈ (m.sample.filter fun proc => parentIndex m proc = none).map ProcessInfo.pid ↔
        m.Orphan pid := by
    simp only [List.mem_map, List.mem_filter, decide_eq_true_eq, parentIndex_none_iff sorted fits,
      ProcessMonitor.Orphan, and_assoc]
    exact exists_congr fun info => and_congr_right fun _ => and_comm
  refine ⟨_, others, roots.trans added, mem_children_iff sorted fits built,
    parentOf_unique sorted, highest, ?_, ?_⟩
  · intro pid parent top up
    obtain ⟨info, member, rfl, absent⟩ := (highest pid).mp top
    obtain ⟨present, other, member', same, rfl⟩ := up
    obtain rfl := same_of_pid sorted member' member same
    exact absent present
  · intro pid parent other up
    have root : pid ∈ tree.roots := by
      rw [roots, added]
      exact List.mem_append_right _ other
    exact ((mem_roots_iff sorted fits built noZero pid).mp root).2 parent up

end Built

/-! ## From paths to lines -/

theorem line_of_path {lines : List TreeRow} {before after : List (List Int)} {path : List Int}
    {pid : Int} (places : lines.map TreeRow.place = (before ++ path :: after).map placeOf)
    (ends : path.getLast? = some pid) :
    ∃ first line last, lines = first ++ line :: last ∧ line.pid = pid ∧
      line.depth + 1 = path.length ∧ first.map TreeRow.place = before.map placeOf ∧
      last.map TreeRow.place = after.map placeOf := by
  rw [List.map_append, List.map_cons] at places
  obtain ⟨first, rest, rfl, placesFirst, placesRest⟩ := List.map_eq_append_iff.mp places
  obtain ⟨line, last, rfl, place, placesLast⟩ := List.map_eq_cons_iff.mp placesRest
  obtain ⟨deep, named⟩ := Prod.mk.inj place
  have pids : some line.pid = some pid := named.trans ends
  exact ⟨first, line, last, rfl, Option.some.inj pids, deep, placesFirst, placesLast⟩

theorem path_of_line {lines : List TreeRow} {rows : List (List Int)}
    (places : lines.map TreeRow.place = rows.map placeOf) {line : TreeRow}
    (member : line ∈ lines) :
    ∃ row ∈ rows, row.length = line.depth + 1 ∧ row.getLast? = some line.pid := by
  have shown : line.place ∈ rows.map placeOf := places ▸ List.mem_map_of_mem member
  obtain ⟨row, walked, place⟩ := List.mem_map.mp shown
  obtain ⟨deep, named⟩ := Prod.mk.inj place
  exact ⟨row, walked, deep, named⟩

theorem shownOnce_of_rows {lines : List TreeRow} {rows : List (List Int)}
    (places : lines.map TreeRow.place = rows.map placeOf) {pid : Int} {above : List Int}
    {before after : List (List Int)} (met : rows = before ++ (above ++ [pid]) :: after)
    (once : ∀ row ∈ before ++ after, row.getLast? ≠ some pid)
    (under : above ≠ [] → ∃ front between, before = front ++ above :: between ∧
      ∀ row ∈ between, above.length + 1 ≤ row.length) :
    ShownOnce lines pid above := by
  subst met
  obtain ⟨first, line, last, rfl, named, deep, placesFirst, placesLast⟩ :=
    line_of_path places List.getLast?_concat
  have depth : line.depth = above.length := by simpa using deep
  refine ⟨first, line, last, rfl, named, depth, ?_, ?_⟩
  · intro other member same
    have others : (first ++ last).map TreeRow.place = (before ++ after).map placeOf := by
      rw [List.map_append, List.map_append, placesFirst, placesLast]
    obtain ⟨row, walked, _, ends⟩ := path_of_line others member
    exact once row walked (same ▸ ends)
  · intro parent isParent
    have higher : above ≠ [] := fun none => by simp [none] at isParent
    obtain ⟨front, between, rfl, deeper⟩ := under higher
    obtain ⟨front', parentLine, between', rfl, parentNamed, parentDeep, _, placesBetween⟩ :=
      line_of_path placesFirst isParent
    refine ⟨front', parentLine, between', rfl, parentNamed, parentDeep.trans depth.symm, ?_⟩
    intro other member
    obtain ⟨row, walked, length, _⟩ := path_of_line placesBetween member
    have := deeper row walked
    omega

/-- A process below an orphan is on one path from the roots, that of its ancestors, and a
    window with room for the sample shows it once, below its parent and as deep as it
    has ancestors. That no PID is 0 is true of every sample the program holds
    (`reachable_no_zero`). -/
theorem settled_shown_once {mem : TreeMemory} {m : ProcessMonitor} {tree : ProcessTree}
    (sorted : KeySorted ProcessInfo.pid m.sample) (fits : m.count ≤ m.processes.cells.length)
    (noZero : 0 ∉ m.sample.map ProcessInfo.pid) (built : processTreeBuild mem m = some tree)
    {pid : Int} {above : List Int} (settled : Ancestry m.Orphan m.ParentOf pid above) :
    (∀ path, PathTo tree.children tree.roots path pid ↔ path = above ++ [pid]) ∧
      ∀ (ui : Ui) (stack : Bytes), (m.count : Int) + 12 ≤ ui.termHeight →
        ∃ draw, ui.drawTree stack tree = some draw ∧ draw.Stacked ∧
          ShownOnce draw.printed pid above := by
  obtain ⟨tops, others, split, forest⟩ := tree_parented sorted fits built noZero
  refine ⟨fun path => split ▸ forest.path_iff settled path, fun ui stack room => ?_⟩
  obtain ⟨draw, drawn, stacked, places⟩ := drawTree_prints (tree_closed sorted fits built) ui stack
  have nodup : (tops ++ others).Nodup := split ▸ (tree_roots sorted fits built).1
  have inside (a : Int) (above : List Int) (settled : Ancestry m.Orphan m.ParentOf a above) :
      a ∈ m.sample.map ProcessInfo.pid := by
    cases settled with
    | top orphan =>
        obtain ⟨info, member, rfl, _⟩ := orphan
        exact List.mem_map_of_mem member
    | climb up _ => exact (parentOf_mem up).1
  have size : (m.sample.map ProcessInfo.pid).length ≤ (ui.termHeight - 12).toNat := by
    rw [List.length_map, ProcessMonitor.sample, List.length_take]
    omega
  obtain ⟨before, after, met, once, under⟩ := forest.met_once (children_nodup sorted fits built)
    nodup inside (Nat.le_succ_of_le size) size settled
  rw [split] at places
  exact ⟨draw, drawn, stacked, shownOnce_of_rows places met once under⟩

/-! Process 12 on its line, though 7 fills the rest of the window with itself. -/

theorem settled_shown_once_example :
    ∃ tree draw, processTreeBuild ⟨true, some fun _ => -1⟩ exampleFamily = some tree ∧
      (∀ path, PathTo tree.children tree.roots path 12 ↔ path = [3, 12]) ∧
      (Ui.init 80 24).drawTree [] tree = some draw ∧ ShownOnce draw.printed 12 [3] := by
  have sorted : KeySorted ProcessInfo.pid exampleFamily.sample :=
    keySorted_iff_map.mpr (by decide +kernel)
  obtain ⟨tree, built⟩ := Option.isSome_iff_exists.mp
    (by decide +kernel : (processTreeBuild ⟨true, some fun _ => -1⟩ exampleFamily).isSome)
  have orphan : exampleFamily.Orphan 3 :=
    ⟨{ ProcessInfo.zero with pid := 3 }, .head _, rfl, by decide +kernel⟩
  have child : exampleFamily.ParentOf 12 3 :=
    ⟨by decide +kernel, { ProcessInfo.zero with pid := 12, ppid := 3 },
      .tail _ (.tail _ (.head _)), rfl, rfl⟩
  obtain ⟨path, shown⟩ := settled_shown_once sorted (by decide) (by decide +kernel) built
    (.climb child (.top orphan))
  obtain ⟨draw, drawn, _, once⟩ := shown (Ui.init 80 24) [] (by decide)
  exact ⟨tree, draw, built, path, drawn, once⟩

end KernelMonitor
