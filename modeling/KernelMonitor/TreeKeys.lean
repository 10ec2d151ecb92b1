import KernelMonitor.Selection
import KernelMonitor.TreeRows

/-! # The keys of the tree view

The help bar of the tree view calls the arrows `[↑↓] Scroll`. They move the highlight of
the process list, which the tree does not look at: it begins at the first root whatever
is pressed.
-/

namespace KernelMonitor

open Library

/-- What one iteration for a key leaves behind: the key, then the frame it asks for. -/
def MainLoop.press (mem : DrawMemory) (width height : Int) (m : ProcessMonitor) (s : MainLoop)
    (ch : Int) : MainLoop :=
  let s := s.handleKey ch
  { s with ui := (s.ui.draw mem width height s.col.sys m).1 }

def MainLoop.presses (mem : DrawMemory) (width height : Int) (m : ProcessMonitor) (s : MainLoop)
    (keys : List Int) : MainLoop :=
  keys.foldl (MainLoop.press mem width height m) s

/-- A tree frame prints a line for the process. -/
def Frame.ShowsRow (shown : Frame) (pid : Int) : Prop :=
  ∃ tree stack draw, shown.content = .processTree tree ∧
    (Ui.init shown.width shown.height).drawTree stack tree = some draw ∧
    ∃ line ∈ draw.printed, line.pid = pid

/-- The arrows leave the tree view, and so do its draws. -/
theorem MainLoop.presses_viewMode (mem : DrawMemory) (width height : Int) (m : ProcessMonitor)
    {s : MainLoop} (view : s.ui.viewMode = .processTree) {keys : List Int}
    (arrows : ∀ ch ∈ keys, commandOf ch = some .up ∨ commandOf ch = some .down) :
    (s.presses mem width height m keys).ui.viewMode = .processTree := by
  have drawn (ui : Ui) (sys : SystemMonitor) (view : ui.viewMode = .processTree) :
      (ui.draw mem width height sys m).1.viewMode = .processTree := by
    simp only [Ui.draw, Ui.drawContent, view]
  induction keys generalizing s with
  | nil => exact view
  | cons ch keys ih =>
      apply ih _ fun other member => arrows other (List.mem_cons_of_mem _ member)
      refine drawn _ (s.handleKey ch).col.sys ?_
      unfold handleKey
      rcases arrows ch List.mem_cons_self with up | down
      · rw [up]
        simp only [runCommand, Ui.selectPrevious]
        split <;> exact view
      · rw [down]
        simp only [runCommand, Ui.selectNext]
        split <;> exact view

/-- A tree frame shows the ends of the first paths of the walk from the roots. -/
theorem Frame.showsRow_iff {shown : Frame} {tree : ProcessTree}
    (content : shown.content = .processTree tree) (closed : tree.Closed) (pid : Int) :
    shown.ShowsRow pid ↔
      ∃ row ∈ (walks tree.children (shown.height - 12).toNat [] tree.roots).take
          (shown.height - 12).toNat, row.getLast? = some pid := by
  have first (stack : Bytes) {draw : TreeDraw}
      (drawn : (Ui.init shown.width shown.height).drawTree stack tree = some draw) :
      draw.printed.map TreeRow.place =
        ((walks tree.children (shown.height - 12).toNat [] tree.roots).take
          (shown.height - 12).toNat).map placeOf := by
    obtain ⟨_, same, _, places⟩ := drawTree_prints closed (Ui.init shown.width shown.height) stack
    obtain rfl := Option.some.inj (drawn.symm.trans same)
    rw [places, take_walks (Nat.le_succ _) le_rfl]
    rfl
  constructor
  · intro shows
    obtain ⟨other, stack, draw, same, drawn, line, member, rfl⟩ := shows
    rw [content] at same
    cases same
    obtain ⟨row, walked, _, ends⟩ := path_of_line (first stack drawn) member
    exact ⟨row, walked, ends⟩
  · intro walked
    obtain ⟨row, member, ends⟩ := walked
    obtain ⟨draw, drawn, _⟩ := drawTree_prints closed (Ui.init shown.width shown.height) []
    obtain ⟨before, after, split⟩ := List.append_of_mem member
    have places := first [] drawn
    rw [split] at places
    obtain ⟨_, line, _, printed, same, _⟩ := line_of_path places ends
    exact ⟨tree, [], draw, content, drawn, line, by rw [printed]; simp, same⟩

section Scrolling

variable {mem : DrawMemory} {m : ProcessMonitor} {tree : ProcessTree}

/-- In the tree view the arrows bring a process on the screen exactly when it is there
    without them, at the end of one of the first paths of the preorder walk. -/
theorem tree_scroll_iff (sorted : KeySorted ProcessInfo.pid m.sample)
    (fits : m.count ≤ m.processes.cells.length)
    (built : processTreeBuild mem.tree m = some tree) {s : MainLoop}
    (view : s.ui.viewMode = .processTree) (sys : SystemMonitor) (width height : Int) (pid : Int) :
    (∃ keys, (∀ ch ∈ keys, commandOf ch = some .up ∨ commandOf ch = some .down) ∧
      ((s.presses mem width height m keys).ui.draw mem width height sys m).2.ShowsRow pid) ↔
      ∃ row ∈ (walks tree.children (height - 12).toNat [] tree.roots).take (height - 12).toNat,
        row.getLast? = some pid := by
  have closed := tree_closed sorted fits built
  have content {ui : Ui} (view : ui.viewMode = .processTree) :
      (ui.draw mem width height sys m).2.content = .processTree tree := by
    simp only [Ui.draw, Ui.drawContent, view, Ui.drawProcessTree, built]
  constructor
  · intro brought
    obtain ⟨keys, arrows, shows⟩ := brought
    have still := MainLoop.presses_viewMode mem width height m view arrows
    exact (Frame.showsRow_iff (content still) closed pid).mp shows
  · intro walked
    exact ⟨[], by simp, (Frame.showsRow_iff (content view) closed pid).mpr walked⟩

end Scrolling

/-! Process 12 below 3, in a window with one row for the tree. -/

def exampleDrawMemory : DrawMemory := ⟨true, true, ⟨true, some fun _ => -1⟩⟩

def exampleTreeView : MainLoop :=
  { exampleMain with ui := exampleMain.ui.setViewMode .processTree }

theorem exampleFamily_tree :
    ∃ tree, processTreeBuild exampleDrawMemory.tree exampleFamily = some tree ∧ tree.Closed ∧
      tree.roots = [3, 7] ∧ 12 ∈ tree.children 3 := by
  have sorted : KeySorted ProcessInfo.pid exampleFamily.sample :=
    keySorted_iff_map.mpr (by decide +kernel)
  obtain ⟨tree, built⟩ := Option.isSome_iff_exists.mp
    (by decide +kernel : (processTreeBuild exampleDrawMemory.tree exampleFamily).isSome)
  have roots : (processTreeBuild exampleDrawMemory.tree exampleFamily).map ProcessTree.roots =
      some [3, 7] := by decide +kernel
  have children : (processTreeBuild exampleDrawMemory.tree exampleFamily).map
      (fun tree => tree.children 3) = some [12] := by decide +kernel
  rw [built] at roots children
  have below : tree.children 3 = [12] := Option.some.inj children
  exact ⟨tree, built, tree_closed sorted (by decide) built, Option.some.inj roots,
    by simp [below]⟩

theorem tree_scroll_iff_example :
    ∃ keys, (∀ ch ∈ keys, commandOf ch = some .up ∨ commandOf ch = some .down) ∧
      ((exampleTreeView.presses exampleDrawMemory 80 13 exampleFamily keys).ui.draw
        exampleDrawMemory 80 13 exampleSystem exampleFamily).2.ShowsRow 3 := by
  have sorted : KeySorted ProcessInfo.pid exampleFamily.sample :=
    keySorted_iff_map.mpr (by decide +kernel)
  obtain ⟨tree, built, _, roots, _⟩ := exampleFamily_tree
  apply (tree_scroll_iff sorted (by decide) built (s := exampleTreeView) rfl exampleSystem 80 13
    3).mpr
  refine ⟨[3], ?_, rfl⟩
  rw [roots]
  simp [walks, walk]

theorem arrows_reach_no_further :
    ∃ tree path, processTreeBuild exampleDrawMemory.tree exampleFamily = some tree ∧
      PathTo tree.children tree.roots path 12 ∧
      ∀ keys, (∀ ch ∈ keys, commandOf ch = some .up ∨ commandOf ch = some .down) →
        ¬ ((exampleTreeView.presses exampleDrawMemory 80 13 exampleFamily keys).ui.draw
          exampleDrawMemory 80 13 exampleSystem exampleFamily).2.ShowsRow 12 := by
  obtain ⟨tree, built, closed, roots, child⟩ := exampleFamily_tree
  have root : PathTo tree.children tree.roots [3] 3 := .root (by rw [roots]; simp)
  refine ⟨tree, _, built, root.down child, fun keys arrows shows => ?_⟩
  have still := MainLoop.presses_viewMode exampleDrawMemory 80 13 exampleFamily
    (s := exampleTreeView) rfl arrows
  have content : ((exampleTreeView.presses exampleDrawMemory 80 13 exampleFamily keys).ui.draw
      exampleDrawMemory 80 13 exampleSystem exampleFamily).2.content = .processTree tree := by
    simp only [Ui.draw, Ui.drawContent, still, Ui.drawProcessTree, built]
  obtain ⟨row, first, ends⟩ := (Frame.showsRow_iff content closed 12).mp shows
  have only : (walks tree.children 1 [] tree.roots).take 1 = [[3]] := by
    rw [roots]
    simp [walks, walk]
  have height : ((exampleTreeView.presses exampleDrawMemory 80 13 exampleFamily keys).ui.draw
      exampleDrawMemory 80 13 exampleSystem exampleFamily).2.height = 13 := rfl
  rw [height] at first
  obtain rfl := List.mem_singleton.mp (only ▸ first)
  cases ends

end KernelMonitor
