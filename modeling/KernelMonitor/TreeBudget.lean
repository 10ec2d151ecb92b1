import KernelMonitor.TreeView

/-! # The rows bound the calls

`draw_tree_recursive` follows whatever PPIDs there are, circles included. Every call that
goes on prints a line first, so the rows that are left bound how deep the calls go, for
any tree at all: also one whose children are missing from its table.
-/

namespace KernelMonitor

open Library

/-- A result does not depend on how deep the calls may go. -/
theorem drawKids_more {drawKid drawKid' : Int → Bool → TreeDraw → Option TreeDraw}
    (more : ∀ kid isLast draw after, drawKid kid isLast draw = some after →
      drawKid' kid isLast draw = some after)
    {kids : List Int} {draw after : TreeDraw} (drawn : drawKids drawKid kids draw = some after) :
    drawKids drawKid' kids draw = some after := by
  induction kids generalizing draw with
  | nil => exact drawn
  | cons kid kids ih =>
      obtain ⟨middle, first, rest⟩ := Option.bind_eq_some_iff.mp drawn
      rw [drawKids, more _ _ _ _ first, Option.bind_some]
      exact ih rest

theorem drawRoots_more {maxRow : Int}
    {drawRoot drawRoot' : Int → Bool → TreeDraw → Option TreeDraw}
    (more : ∀ root isLast draw after, drawRoot root isLast draw = some after →
      drawRoot' root isLast draw = some after)
    {roots : List Int} {draw after : TreeDraw}
    (drawn : drawRoots maxRow drawRoot roots draw = some after) :
    drawRoots maxRow drawRoot' roots draw = some after := by
  induction roots generalizing draw with
  | nil => exact drawn
  | cons root roots ih =>
      rw [drawRoots] at drawn ⊢
      by_cases noRoom : maxRow ≤ draw.row
      · rwa [if_pos noRoom] at drawn ⊢
      · rw [if_neg noRoom] at drawn ⊢
        obtain ⟨middle, first, rest⟩ := Option.bind_eq_some_iff.mp drawn
        rw [more _ _ _ _ first, Option.bind_some]
        exact ih rest

theorem drawTreeRecursive_more {termWidth : Int} {tree : ProcessTree} {maxRow : Int}
    {calls calls' : Nat} (deeper : calls ≤ calls') {pid : Int} {depth : Nat} {isLast : Bool}
    {prefixLen : Nat} {draw after : TreeDraw}
    (drawn : drawTreeRecursive termWidth tree maxRow calls pid depth isLast prefixLen draw =
      some after) :
    drawTreeRecursive termWidth tree maxRow calls' pid depth isLast prefixLen draw =
      some after := by
  induction calls generalizing calls' pid depth isLast prefixLen draw after with
  | zero => cases drawn
  | succ calls ih =>
      obtain ⟨calls', rfl⟩ : ∃ below, calls' = below + 1 := ⟨calls' - 1, by omega⟩
      rw [drawTreeRecursive] at drawn ⊢
      by_cases noRoom : maxRow ≤ draw.row
      · rwa [if_pos noRoom] at drawn ⊢
      · rw [if_neg noRoom] at drawn ⊢
        cases entry : tree.entry pid with
        | none => simpa only [entry] using drawn
        | some p =>
            simp only [entry] at drawn ⊢
            by_cases leaf : tree.children pid = []
            · rwa [if_pos leaf] at drawn ⊢
            · rw [if_neg leaf] at drawn ⊢
              obtain ⟨last, kids, rfl⟩ := Option.map_eq_some_iff.mp drawn
              have below : calls ≤ calls' := by omega
              have same := drawKids_more (fun kid isLast draw after => ih below) kids
              rw [same, Option.map_some]

/-- For any tree, with circles and processes that are their own parents, and any height,
    the drawing ends, prints no more lines than the window has rows for the tree, and its
    calls go at most one level deeper than that: being allowed more changes nothing. -/
theorem tree_draw_bounded (ui : Ui) (stack : Bytes) (tree : ProcessTree) :
    ∃ draw, ui.drawTree stack tree = some draw ∧
      draw.printed.length ≤ (ui.termHeight - 12).toNat ∧
      ∀ calls, (ui.termHeight - 12).toNat + 1 ≤ calls →
        ui.drawTreeWithin calls stack tree = some draw := by
  obtain ⟨draw, drawn, _, places⟩ := drawTreeWithin_drawn ui (Nat.lt_succ_self _) stack tree
  have length := congrArg List.length places
  rw [List.length_map, List.length_map, List.length_take] at length
  refine ⟨draw, (ui.drawTree_within stack tree).trans drawn, by omega, fun calls more => ?_⟩
  exact drawRoots_more (fun root isLast draw after => drawTreeRecursive_more more) drawn

end KernelMonitor
