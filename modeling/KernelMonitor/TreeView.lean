import KernelMonitor.TreePaths
import KernelMonitor.Ui

/-! # The tree on the screen

Model of `draw_tree_recursive` and of `draw_process_tree` once the tree is built. The
calls share the next row and one buffer with the bars of the ancestry. Only the rows
that are left bound the depth of the calls: a process that is its own parent is drawn
below itself until the window is full.
-/

namespace KernelMonitor

open Library

def treePrefixMax : Nat := 512

/-- `truncate_to`, into a buffer of `bufsz` bytes. -/
def truncateTo (bufsz : Nat) (str : Bytes) (width : Nat) : Bytes :=
  if bufsz = 0 then []
  else
    let width := if bufsz ≤ width then bufsz - 1 else width
    if str.length ≤ width then str
    else if width < 4 then str.take width
    else str.take (width - 3) ++ text "..."

/-- `memcpy` to an offset of a buffer. A write past the end makes it longer. -/
def writeBytes (buf : Bytes) (offset : Nat) (bytes : Bytes) : Bytes :=
  buf.take offset ++ bytes ++ buf.drop (offset + bytes.length)

/-- `km_process_tree_find`: the entry the pointer leads to. -/
def ProcessTree.entry (tree : ProcessTree) (pid : Int) : Option ProcessInfo :=
  (tree.find pid).bind fun i => tree.processes[i]?

/-- One line of the tree, and the depth of the call that printed it. -/
structure TreeRow where
  row : Int
  depth : Nat
  indent : Bytes
  pid : Int
  name : Bytes
  deriving DecidableEq, Repr

/-- `"%s%d %s"` -/
def TreeRow.text (line : TreeRow) : Bytes :=
  line.indent ++ signedDecimal line.pid ++ Library.text " " ++ line.name

/-- What the calls share: `*row`, the cells of `prefix`, and the lines in the window. -/
structure TreeDraw where
  row : Int
  prefixCells : Bytes
  printed : List TreeRow
  deriving DecidableEq, Repr

namespace TreeDraw

/-- The line of one process. -/
def print (draw : TreeDraw) (termWidth : Int) (depth : Nat) (isLast : Bool)
    (p : ProcessInfo) : TreeDraw :=
  let indent := snprintf (treePrefixMax + 8) (cString draw.prefixCells ++
    if 0 < depth then (if isLast then text "└─ " else text "├─ ") else [])
  let used : Int := depth * 3
  let nameRoom := if termWidth - 12 - used < 8 then 8 else termWidth - 12 - used
  let name := truncateTo commMax p.name nameRoom.toNat
  { draw with
    row := draw.row + 1
    printed := draw.printed ++ [⟨draw.row, depth, indent, p.pid, name⟩] }

/-- The prefix of a process's children, and its length. A segment that does not fit is
    left out. -/
def extend (draw : TreeDraw) (depth : Nat) (isLast : Bool) (prefixLen : Nat) : TreeDraw × Nat :=
  let segment := if isLast then text "   " else text "│  "
  let childLen := prefixLen + segment.length
  if 0 < depth ∧ childLen < treePrefixMax then
    let cells := writeBytes draw.prefixCells prefixLen segment
    ({ draw with prefixCells := writeBytes cells childLen [0] }, childLen)
  else (draw, prefixLen)

/-- Hand the buffer back to the caller. -/
def restore (draw : TreeDraw) (prefixLen : Nat) : TreeDraw :=
  { draw with prefixCells := writeBytes draw.prefixCells prefixLen [0] }

end TreeDraw

/-- The loop over the children. The last one is `i + 1 == kid_count`. -/
def drawKids (drawKid : Int → Bool → TreeDraw → Option TreeDraw) :
    List Int → TreeDraw → Option TreeDraw
  | [], draw => some draw
  | kid :: kids, draw => (drawKid kid kids.isEmpty draw).bind (drawKids drawKid kids)

/-- `draw_tree_recursive`, with the depth the calls may still go down: `none` where that
    is not enough. -/
def drawTreeRecursive (termWidth : Int) (tree : ProcessTree) (maxRow : Int) :
    Nat → Int → Nat → Bool → Nat → TreeDraw → Option TreeDraw
  | 0, _, _, _, _, _ => none
  | calls + 1, pid, depth, isLast, prefixLen, draw =>
      if maxRow ≤ draw.row then some draw
      else
        match tree.entry pid with
        | none => some draw
        | some p =>
            let draw := draw.print termWidth depth isLast p
            let kids := tree.children pid
            if kids = [] then some draw
            else
              let (draw, childLen) := draw.extend depth isLast prefixLen
              let drawKid kid isLast draw :=
                drawTreeRecursive termWidth tree maxRow calls kid (depth + 1) isLast childLen draw
              (drawKids drawKid kids draw).map fun draw => draw.restore prefixLen

/-- The loop over the roots, which stops at a full window. -/
def drawRoots (maxRow : Int) (drawRoot : Int → Bool → TreeDraw → Option TreeDraw) :
    List Int → TreeDraw → Option TreeDraw
  | [], draw => some draw
  | root :: roots, draw =>
      if maxRow ≤ draw.row then some draw
      else (drawRoot root roots.isEmpty draw).bind (drawRoots maxRow drawRoot roots)

/-- The rest of `draw_process_tree`, from what the stack holds at `prefix`. The calls may
    go one level deeper than there are rows. -/
def Ui.drawTree (ui : Ui) (stack : Bytes) (tree : ProcessTree) : Option TreeDraw :=
  let maxRow := ui.termHeight - 10
  let drawRoot root isLast draw :=
    drawTreeRecursive ui.termWidth tree maxRow ((maxRow - 2).toNat + 1) root 0 isLast 0 draw
  drawRoots maxRow drawRoot tree.roots ⟨2, writeBytes stack 0 [0], []⟩

/-- `Ui.drawTree`, with calls that may go down the given number of levels. -/
def Ui.drawTreeWithin (ui : Ui) (calls : Nat) (stack : Bytes) (tree : ProcessTree) :
    Option TreeDraw :=
  let maxRow := ui.termHeight - 10
  let drawRoot root isLast draw :=
    drawTreeRecursive ui.termWidth tree maxRow calls root 0 isLast 0 draw
  drawRoots maxRow drawRoot tree.roots ⟨2, writeBytes stack 0 [0], []⟩

theorem Ui.drawTree_within (ui : Ui) (stack : Bytes) (tree : ProcessTree) :
    ui.drawTree stack tree = ui.drawTreeWithin ((ui.termHeight - 12).toNat + 1) stack tree := by
  have budget : (ui.termHeight - 10 - 2).toNat = (ui.termHeight - 12).toNat := by omega
  rw [← budget]
  rfl

/-! ## The walk behind the calls -/

/-- What a line says of the path it stands for: how long it is and where it ends. -/
def TreeRow.place (line : TreeRow) : Nat × Option Int := (line.depth + 1, some line.pid)

def placeOf (path : List Int) : Nat × Option Int := (path.length, path.getLast?)

/-- The lines stand one below the other, from row 2 to the one before the next. -/
structure TreeDraw.Stacked (draw : TreeDraw) : Prop where
  next : draw.row = 2 + draw.printed.length
  rows : ∀ (i : Nat) line, draw.printed[i]? = some line → line.row = 2 + (i : Int)

/-- From one state to the next the paths are printed in order, as far as there are rows. -/
structure TreeDraw.Prints (maxRow : Int) (before after : TreeDraw) (paths : List (List Int)) :
    Prop where
  stacked : before.Stacked → after.Stacked
  row : after.row = before.row + (paths.take (maxRow - before.row).toNat).length
  printed : ∃ lines, after.printed = before.printed ++ lines ∧
    lines.map TreeRow.place = (paths.take (maxRow - before.row).toNat).map placeOf

namespace TreeDraw.Prints

variable {maxRow : Int} {before middle after : TreeDraw} {paths more : List (List Int)}

theorem nothing (maxRow : Int) (draw : TreeDraw) : Prints maxRow draw draw [] :=
  ⟨id, by simp, [], by simp, by simp⟩

theorem full (maxRow : Int) {draw : TreeDraw} (noRoom : maxRow ≤ draw.row)
    (paths : List (List Int)) : Prints maxRow draw draw paths := by
  have none : (maxRow - draw.row).toNat = 0 := by omega
  exact ⟨id, by simp [none], [], by simp, by simp [none]⟩

theorem trans (first : Prints maxRow before middle paths)
    (second : Prints maxRow middle after more) : Prints maxRow before after (paths ++ more) := by
  obtain ⟨stacked, row, lines, printed, places⟩ := first
  obtain ⟨stacked', row', lines', printed', places'⟩ := second
  have left : (maxRow - middle.row).toNat = (maxRow - before.row).toNat - paths.length := by
    rw [row, List.length_take]
    omega
  rw [left] at row' places'
  refine ⟨fun known => stacked' (stacked known), ?_, lines ++ lines',
    by rw [printed', printed, List.append_assoc], ?_⟩
  · rw [row', row, List.take_append, List.length_append]
    omega
  · rw [List.map_append, places, places', List.take_append, List.map_append]

/-- The buffer has no part in it. -/
theorem of_same (prints : Prints maxRow before middle paths) {before' after : TreeDraw}
    (row : before'.row = before.row) (printed : before'.printed = before.printed)
    (row' : after.row = middle.row) (printed' : after.printed = middle.printed) :
    Prints maxRow before' after paths := by
  constructor
  · intro known
    obtain ⟨next, rows⟩ := prints.stacked ⟨by rw [← row, ← printed, known.next],
      by rw [← printed]; exact known.rows⟩
    exact ⟨by rw [row', printed', next], by rw [printed']; exact rows⟩
  · rw [row', row, prints.row]
  · rw [printed', printed, row]
    exact prints.printed

theorem room (prints : Prints maxRow before after paths) : before.row ≤ after.row := by
  rw [prints.row]
  omega

end TreeDraw.Prints

theorem TreeDraw.print_stacked {draw : TreeDraw} (known : draw.Stacked) (termWidth : Int)
    (depth : Nat) (isLast : Bool) (p : ProcessInfo) :
    (draw.print termWidth depth isLast p).Stacked := by
  refine ⟨by simp [print, known.next, add_assoc], fun i line there => ?_⟩
  rw [print, List.getElem?_append] at there
  split at there
  · exact known.rows i line there
  · rename_i past
    obtain ⟨first, rfl⟩ := List.getElem?_eq_some_iff.mp there
    have : i = draw.printed.length := by simp at first; omega
    simp [this, known.next]

theorem TreeDraw.prints_print {maxRow : Int} {draw : TreeDraw} (room : draw.row < maxRow)
    (termWidth : Int) (trail : List Int) (isLast : Bool) (p : ProcessInfo) :
    Prints maxRow draw (draw.print termWidth trail.length isLast p) [trail ++ [p.pid]] := by
  obtain ⟨left, some⟩ : ∃ left, (maxRow - draw.row).toNat = left + 1 :=
    ⟨(maxRow - draw.row).toNat - 1, by omega⟩
  refine ⟨fun known => print_stacked known termWidth trail.length isLast p,
    by simp [some, print], _, rfl, ?_⟩
  simp [some, TreeRow.place, placeOf]

theorem TreeDraw.extend_frame (draw : TreeDraw) (depth : Nat) (isLast : Bool) (prefixLen : Nat) :
    (draw.extend depth isLast prefixLen).1.row = draw.row ∧
      (draw.extend depth isLast prefixLen).1.printed = draw.printed := by
  by_cases fits : 0 < depth ∧
      prefixLen + (if isLast then text "   " else text "│  ").length < treePrefixMax
  · simp only [extend, if_pos fits, and_self]
  · simp only [extend, if_neg fits, and_self]

section Walked

variable {maxRow : Int} {calls : Nat} {below : Int → List (List Int)}

theorem drawKids_prints {drawKid : Int → Bool → TreeDraw → Option TreeDraw} {kids : List Int}
    (one : ∀ kid ∈ kids, ∀ isLast draw, (maxRow - draw.row).toNat < calls →
      ∃ after, drawKid kid isLast draw = some after ∧ draw.Prints maxRow after (below kid))
    (draw : TreeDraw) (enough : (maxRow - draw.row).toNat < calls) :
    ∃ after, drawKids drawKid kids draw = some after ∧
      draw.Prints maxRow after (kids.flatMap below) := by
  induction kids generalizing draw with
  | nil => exact ⟨draw, rfl, .nothing maxRow draw⟩
  | cons kid kids ih =>
      obtain ⟨middle, drawn, prints⟩ := one kid List.mem_cons_self kids.isEmpty draw enough
      have less := prints.room
      obtain ⟨after, rest, prints'⟩ :=
        ih (fun k member => one k (List.mem_cons_of_mem _ member)) middle (by omega)
      exact ⟨after, by rw [drawKids, drawn, Option.bind_some, rest], prints.trans prints'⟩

theorem drawRoots_prints {drawRoot : Int → Bool → TreeDraw → Option TreeDraw} {roots : List Int}
    (one : ∀ root ∈ roots, ∀ isLast draw, (maxRow - draw.row).toNat < calls →
      ∃ after, drawRoot root isLast draw = some after ∧ draw.Prints maxRow after (below root))
    (draw : TreeDraw) (enough : (maxRow - draw.row).toNat < calls) :
    ∃ after, drawRoots maxRow drawRoot roots draw = some after ∧
      draw.Prints maxRow after (roots.flatMap below) := by
  induction roots generalizing draw with
  | nil => exact ⟨draw, rfl, .nothing maxRow draw⟩
  | cons root roots ih =>
      by_cases noRoom : maxRow ≤ draw.row
      · exact ⟨draw, by rw [drawRoots, if_pos noRoom], .full maxRow noRoom _⟩
      · obtain ⟨middle, drawn, prints⟩ := one root List.mem_cons_self roots.isEmpty draw enough
        have less := prints.room
        obtain ⟨after, rest, prints'⟩ :=
          ih (fun k member => one k (List.mem_cons_of_mem _ member)) middle (by omega)
        refine ⟨after, ?_, prints.trans prints'⟩
        rw [drawRoots, if_neg noRoom, drawn, Option.bind_some, rest]

end Walked

/-- The children a call draws: those that are in the table. -/
def ProcessTree.found (tree : ProcessTree) (pid : Int) : List Int :=
  (tree.children pid).filter fun kid => (tree.entry kid).isSome

/-- The paths that a call prints, given rows enough. -/
def ProcessTree.drawn (tree : ProcessTree) (calls : Nat) (trail : List Int) (pid : Int) :
    List (List Int) :=
  if (tree.entry pid).isSome then walk tree.found calls trail pid else []

theorem tree_entry_pid {tree : ProcessTree} {pid : Int} {p : ProcessInfo}
    (entry : tree.entry pid = some p) : p.pid = pid := by
  unfold ProcessTree.entry at entry
  obtain ⟨i, found, there⟩ := Option.bind_eq_some_iff.mp entry
  obtain ⟨q, atI, _, same⟩ := findIn_sound found
  rw [atI] at there
  exact Option.some.inj there ▸ same

/-- A call that may go deeper than there are rows left returns, whatever the tree is like.
    By induction on that depth. -/
theorem drawTreeRecursive_drawn (tree : ProcessTree) (termWidth : Int) {maxRow : Int}
    {calls : Nat} (pid : Int) (trail : List Int) (isLast : Bool) (prefixLen : Nat)
    {draw : TreeDraw} (enough : (maxRow - draw.row).toNat < calls) :
    ∃ after, drawTreeRecursive termWidth tree maxRow calls pid trail.length isLast prefixLen draw
        = some after ∧
      draw.Prints maxRow after (tree.drawn calls trail pid) := by
  induction calls generalizing pid trail isLast prefixLen draw with
  | zero => omega
  | succ calls ih =>
      by_cases noRoom : maxRow ≤ draw.row
      · exact ⟨draw, by rw [drawTreeRecursive, if_pos noRoom], .full maxRow noRoom _⟩
      · rw [drawTreeRecursive, if_neg noRoom, ProcessTree.drawn]
        cases entry : tree.entry pid with
        | none => exact ⟨draw, rfl, .nothing maxRow draw⟩
        | some p =>
            obtain rfl := tree_entry_pid entry
            have line := TreeDraw.prints_print (by omega : draw.row < maxRow) termWidth trail
              isLast p
            have below : walks tree.found calls (trail ++ [p.pid]) (tree.found p.pid) =
                (tree.children p.pid).flatMap (tree.drawn calls (trail ++ [p.pid])) :=
              walks_filter ..
            rw [Option.isSome_some, if_pos rfl, walk_succ, below]
            by_cases leaf : tree.children p.pid = []
            · simp only [leaf, if_true, List.flatMap_nil]
              exact ⟨_, rfl, line⟩
            · simp only [leaf, if_false]
              obtain ⟨row, printed⟩ := TreeDraw.extend_frame
                (draw.print termWidth trail.length isLast p) trail.length isLast prefixLen
              have one (kid : Int) (_ : kid ∈ tree.children p.pid) (isLast' : Bool)
                  (draw' : TreeDraw) (enough' : (maxRow - draw'.row).toNat < calls) :
                  ∃ after, drawTreeRecursive termWidth tree maxRow calls kid (trail.length + 1)
                      isLast' ((draw.print termWidth trail.length isLast p).extend trail.length
                        isLast prefixLen).2 draw' = some after ∧
                    draw'.Prints maxRow after (tree.drawn calls (trail ++ [p.pid]) kid) := by
                simpa using ih kid (trail ++ [p.pid]) isLast' _ enough'
              have taken : (draw.print termWidth trail.length isLast p).row = draw.row + 1 := rfl
              obtain ⟨after, drawn, prints⟩ := drawKids_prints one _ (by rw [row, taken]; omega)
              refine ⟨after.restore prefixLen, by rw [drawn]; rfl, ?_⟩
              exact line.trans (prints.of_same row.symm printed.symm rfl rfl)

/-- The lines of a window for any tree, with calls that may go one level deeper than it has
    rows for the tree. -/
theorem drawTreeWithin_drawn (ui : Ui) {calls : Nat} (enough : (ui.termHeight - 12).toNat < calls)
    (stack : Bytes) (tree : ProcessTree) :
    ∃ draw, ui.drawTreeWithin calls stack tree = some draw ∧ draw.Stacked ∧
      draw.printed.map TreeRow.place =
        ((tree.roots.flatMap (tree.drawn calls [])).take
          (ui.termHeight - 12).toNat).map placeOf := by
  have budget : (ui.termHeight - 10 - 2).toNat = (ui.termHeight - 12).toNat := by omega
  have one (root : Int) (_ : root ∈ tree.roots) (isLast : Bool) (draw : TreeDraw)
      (enough : (ui.termHeight - 10 - draw.row).toNat < calls) :=
    drawTreeRecursive_drawn tree ui.termWidth root [] isLast 0 enough
  obtain ⟨draw, drawn, stacked, _, lines, printed, places⟩ :=
    drawRoots_prints one ⟨2, writeBytes stack 0 [0], []⟩ (by dsimp only; omega)
  refine ⟨draw, drawn, stacked ⟨rfl, by simp⟩, ?_⟩
  rw [printed, List.nil_append, places]
  simp only [budget]

/-- Roots and children are entries of the table. -/
structure ProcessTree.Closed (tree : ProcessTree) : Prop where
  roots : ∀ pid ∈ tree.roots, ∃ p, tree.entry pid = some p ∧ p.pid = pid
  children : ∀ parent, ∀ pid ∈ tree.children parent, ∃ p, tree.entry pid = some p ∧ p.pid = pid

/-- There every child is drawn, and the paths are the walk from the roots. -/
theorem ProcessTree.Closed.drawn_eq {tree : ProcessTree} (closed : tree.Closed) (calls : Nat) :
    tree.roots.flatMap (tree.drawn calls []) = walks tree.children calls [] tree.roots := by
  have found : tree.found = tree.children := by
    funext pid
    apply List.filter_eq_self.mpr
    intro kid member
    obtain ⟨p, entry, _⟩ := closed.children pid kid member
    rw [entry, Option.isSome_some]
  apply List.flatMap_congr
  intro root member
  obtain ⟨p, entry, _⟩ := closed.roots root member
  rw [drawn, entry, Option.isSome_some, if_pos rfl, found]

/-- The lines of the window are the walk from the roots, cut off where it is full. -/
theorem drawTree_prints {tree : ProcessTree} (closed : tree.Closed) (ui : Ui) (stack : Bytes) :
    ∃ draw, ui.drawTree stack tree = some draw ∧ draw.Stacked ∧
      draw.printed.map TreeRow.place =
        ((walks tree.children ((ui.termHeight - 12).toNat + 1) [] tree.roots).take
          (ui.termHeight - 12).toNat).map placeOf := by
  obtain ⟨draw, drawn, stacked, places⟩ :=
    drawTreeWithin_drawn ui (Nat.lt_succ_self _) stack tree
  rw [closed.drawn_eq] at places
  exact ⟨draw, (ui.drawTree_within stack tree).trans drawn, stacked, places⟩

end KernelMonitor
