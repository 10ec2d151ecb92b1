import KernelMonitor.Library.BoundedOutput
import KernelMonitor.TreeBudget

/-! # The bars before a line

The calls of `draw_tree_recursive` share one buffer with the bars of the ancestry. A call
puts its own segment behind what it was given, lets its children write behind that, and
cuts the buffer off again. So each call finds in it what its ancestors wrote.
-/

namespace KernelMonitor

open Library

/-! ## The buffer -/

/-- The buffer has its size, and its string is this text. -/
structure Holds (cells held : Bytes) : Prop where
  size : cells.length = treePrefixMax
  text : ∃ rest, cells = held ++ 0 :: rest
  plain : 0 ∉ held

theorem writeBytes_at (front back bytes : Bytes) :
    writeBytes (front ++ back) front.length bytes = front ++ bytes ++ back.drop bytes.length := by
  rw [writeBytes, List.take_left, ← List.drop_drop, List.drop_left]

namespace Holds

variable {cells held : Bytes}

theorem cString (holds : Holds cells held) : Library.cString cells = held := by
  obtain ⟨rest, same⟩ := holds.text
  rw [same]
  exact cString_append_nul holds.plain rest

theorem room (holds : Holds cells held) : held.length < treePrefixMax := by
  obtain ⟨rest, same⟩ := holds.text
  rw [← holds.size, same]
  simp

/-- The empty text, once the first byte is NUL. -/
theorem empty (size : cells.length = treePrefixMax) : Holds (writeBytes cells 0 [0]) [] := by
  refine ⟨?_, ⟨cells.drop 1, rfl⟩, by simp⟩
  simp [writeBytes, size, treePrefixMax]

/-- More text behind the old, and its NUL. -/
theorem append (holds : Holds cells held) {more : Bytes} (plain : 0 ∉ more)
    (fits : held.length + more.length < treePrefixMax) :
    Holds (writeBytes (writeBytes cells held.length more) (held.length + more.length) [0])
      (held ++ more) := by
  obtain ⟨rest, same⟩ := holds.text
  have size := holds.size
  rw [same] at size ⊢
  rw [writeBytes_at, ← List.length_append, writeBytes_at]
  refine ⟨?_, ⟨_, List.append_assoc ..⟩, ?_⟩
  · simp only [List.length_append, List.length_cons, List.length_drop, List.length_nil] at *
    omega
  · rw [List.mem_append]
    exact not_or.mpr ⟨holds.plain, plain⟩

/-- A NUL behind a part of the text leaves that part. -/
theorem cut {more : Bytes} (holds : Holds cells (held ++ more)) :
    Holds (writeBytes cells held.length [0]) held := by
  obtain ⟨rest, same⟩ := holds.text
  have size := holds.size
  rw [same] at size ⊢
  rw [List.append_assoc, writeBytes_at]
  refine ⟨?_, ⟨_, List.append_assoc ..⟩, fun zero => holds.plain (List.mem_append_left _ zero)⟩
  simp only [List.length_append, List.length_cons, List.length_drop, List.length_nil] at *
  omega

end Holds

/-! ## The calls with their writes checked -/

/-- A write that must stay inside the buffer. -/
def writeInside (buf : Bytes) (offset : Nat) (bytes : Bytes) : Option Bytes :=
  if offset + bytes.length ≤ treePrefixMax then some (writeBytes buf offset bytes) else none

namespace TreeDraw

def extendChecked (draw : TreeDraw) (depth : Nat) (isLast : Bool) (prefixLen : Nat) :
    Option (TreeDraw × Nat) :=
  let segment := if isLast then text "   " else text "│  "
  let childLen := prefixLen + segment.length
  if 0 < depth ∧ childLen < treePrefixMax then do
    let cells ← writeInside draw.prefixCells prefixLen segment
    let cells ← writeInside cells childLen [0]
    some ({ draw with prefixCells := cells }, childLen)
  else some (draw, prefixLen)

def restoreChecked (draw : TreeDraw) (prefixLen : Nat) : Option TreeDraw := do
  let cells ← writeInside draw.prefixCells prefixLen [0]
  some { draw with prefixCells := cells }

/-- A call that began with the first state handed back the prefix it was given. -/
def Returned (entered left : TreeDraw) : Prop :=
  left.prefixCells.length = treePrefixMax ∧
    cString left.prefixCells = cString entered.prefixCells

instance (entered left : TreeDraw) : Decidable (Returned entered left) :=
  inferInstanceAs (Decidable (_ ∧ _))

end TreeDraw

/-- `draw_tree_recursive`, where a write past the buffer and a call that does not hand back
    its prefix have no result. -/
def drawTreeChecked (termWidth : Int) (tree : ProcessTree) (maxRow : Int) :
    Nat → Int → Nat → Bool → Nat → TreeDraw → Option TreeDraw
  | 0, _, _, _, _, _ => none
  | calls + 1, pid, depth, isLast, prefixLen, entered =>
      let left :=
        if maxRow ≤ entered.row then some entered
        else
          match tree.entry pid with
          | none => some entered
          | some p =>
              let draw := entered.print termWidth depth isLast p
              let kids := tree.children pid
              if kids = [] then some draw
              else do
                let (draw, childLen) ← draw.extendChecked depth isLast prefixLen
                let drawKid kid isLast draw :=
                  drawTreeChecked termWidth tree maxRow calls kid (depth + 1) isLast childLen draw
                let draw ← drawKids drawKid kids draw
                draw.restoreChecked prefixLen
      left.bind fun left => if TreeDraw.Returned entered left then some left else none

theorem writeInside_sound {buf after bytes : Bytes} {offset : Nat}
    (written : writeInside buf offset bytes = some after) :
    after = writeBytes buf offset bytes := by
  unfold writeInside at written
  split at written
  · exact (Option.some.inj written).symm
  · cases written

theorem writeInside_of_le (buf : Bytes) {offset : Nat} {bytes : Bytes}
    (inside : offset + bytes.length ≤ treePrefixMax) :
    writeInside buf offset bytes = some (writeBytes buf offset bytes) := if_pos inside

theorem TreeDraw.extendChecked_sound {draw : TreeDraw} {depth : Nat} {isLast : Bool}
    {prefixLen : Nat} {extended : TreeDraw × Nat}
    (done : draw.extendChecked depth isLast prefixLen = some extended) :
    draw.extend depth isLast prefixLen = extended := by
  unfold extendChecked at done
  unfold extend
  dsimp only at done ⊢
  generalize (if isLast then text "   " else text "│  ") = segment at *
  by_cases fits : 0 < depth ∧ prefixLen + segment.length < treePrefixMax
  · rw [if_pos fits] at done ⊢
    obtain ⟨first, written, done⟩ := Option.bind_eq_some_iff.mp done
    obtain ⟨second, written', done⟩ := Option.bind_eq_some_iff.mp done
    obtain rfl := writeInside_sound written
    obtain rfl := writeInside_sound written'
    exact Option.some.inj done
  · rw [if_neg fits] at done ⊢
    exact Option.some.inj done

theorem TreeDraw.restoreChecked_sound {draw restored : TreeDraw} {prefixLen : Nat}
    (done : draw.restoreChecked prefixLen = some restored) : draw.restore prefixLen = restored := by
  obtain ⟨cells, written, done⟩ := Option.bind_eq_some_iff.mp done
  obtain rfl := writeInside_sound written
  exact Option.some.inj done

/-- A result of the checked calls is that of the calls themselves. -/
theorem drawTreeChecked_sound {termWidth : Int} {tree : ProcessTree} {maxRow : Int}
    {calls : Nat} {pid : Int} {depth : Nat} {isLast : Bool} {prefixLen : Nat}
    {entered left : TreeDraw}
    (done : drawTreeChecked termWidth tree maxRow calls pid depth isLast prefixLen entered =
      some left) :
    drawTreeRecursive termWidth tree maxRow calls pid depth isLast prefixLen entered =
      some left := by
  induction calls generalizing pid depth isLast prefixLen entered left with
  | zero => cases done
  | succ calls ih =>
      rw [drawTreeChecked] at done
      obtain ⟨after, body, asserted⟩ := Option.bind_eq_some_iff.mp done
      obtain rfl : after = left := by
        split at asserted
        · exact Option.some.inj asserted
        · cases asserted
      rw [drawTreeRecursive]
      by_cases noRoom : maxRow ≤ entered.row
      · rwa [if_pos noRoom] at body ⊢
      · rw [if_neg noRoom] at body ⊢
        cases entry : tree.entry pid with
        | none => simpa only [entry] using body
        | some p =>
            simp only [entry] at body ⊢
            by_cases leaf : tree.children pid = []
            · rwa [if_pos leaf] at body ⊢
            · rw [if_neg leaf] at body ⊢
              obtain ⟨⟨extended, childLen⟩, extends', rest⟩ := Option.bind_eq_some_iff.mp body
              obtain ⟨last, kids, restored⟩ := Option.bind_eq_some_iff.mp rest
              rw [TreeDraw.extendChecked_sound extends']
              have same := drawKids_more (fun kid isLast draw after => ih) kids
              dsimp only
              rw [same, Option.map_some, TreeDraw.restoreChecked_sound restored]

/-! ## The bars of a path -/

/-- What a node puts before the lines below it: a bar while it has siblings to come. -/
def segment (isLast : Bool) : Bytes := if isLast then text "   " else text "│  "

/-- What a node's own line has before its PID. -/
def branch (isLast : Bool) : Bytes := if isLast then text "└─ " else text "├─ "

/-- The nodes of one level, each with whether it is the last: `i + 1 == kid_count`. -/
def markLast : List Int → List (Int × Bool)
  | [] => []
  | kid :: kids => (kid, kids.isEmpty) :: markLast kids

namespace ProcessTree

/-- The nodes below a node that are drawn. -/
def below (tree : ProcessTree) (node : Int × Bool) : List (Int × Bool) :=
  (markLast (tree.children node.1)).filter fun kid => (tree.entry kid.1).isSome

/-- The roots that are drawn. -/
def tops (tree : ProcessTree) : List (Int × Bool) :=
  (markLast tree.roots).filter fun root => (tree.entry root.1).isSome

/-- The paths of the calls that print, from one node on. -/
def lines (tree : ProcessTree) (calls : Nat) (trail : List (Int × Bool)) (node : Int × Bool) :
    List (List (Int × Bool)) :=
  if (tree.entry node.1).isSome then walk tree.below calls trail node else []

end ProcessTree

/-- A segment that does not fit is left out. -/
def extendHeld (held : Bytes) (node : Int × Bool) : Bytes :=
  if held.length + (segment node.2).length < treePrefixMax then held ++ segment node.2 else held

/-- What the buffer holds for the children at the end of a path. The root adds nothing. -/
def ancestryPrefix (path : List (Int × Bool)) : Bytes := (path.drop 1).foldl extendHeld []

/-- The text before the PID on the line of a path. -/
def indentOf (path : List (Int × Bool)) : Bytes :=
  ancestryPrefix path.dropLast ++
    if 1 < path.length then ((path.getLast?).map fun node => branch node.2).getD [] else []

theorem zero_notMem_segment (isLast : Bool) : 0 ∉ segment isLast := by
  cases isLast <;> decide +kernel

theorem length_branch (isLast : Bool) : (branch isLast).length = 7 := by
  cases isLast <;> decide +kernel

theorem ancestryPrefix_snoc (trail : List (Int × Bool)) (node : Int × Bool) :
    ancestryPrefix (trail ++ [node]) =
      if trail = [] then [] else extendHeld (ancestryPrefix trail) node := by
  unfold ancestryPrefix
  cases trail with
  | nil => rfl
  | cons root trail => simp

theorem indentOf_snoc (trail : List (Int × Bool)) (node : Int × Bool) :
    indentOf (trail ++ [node]) =
      ancestryPrefix trail ++ if 0 < trail.length then branch node.2 else [] := by
  unfold indentOf
  rw [List.dropLast_concat, List.getLast?_concat, List.length_append, List.length_singleton]
  simp

/-- Where the segments of the ancestors all fit, the buffer holds every one of them. -/
theorem foldl_extendHeld {held : Bytes} {nodes : List (Int × Bool)}
    (fits : held.length + (nodes.flatMap fun node => segment node.2).length < treePrefixMax) :
    nodes.foldl extendHeld held = held ++ nodes.flatMap fun node => segment node.2 := by
  induction nodes generalizing held with
  | nil => simp
  | cons node nodes ih =>
      rw [List.flatMap_cons, List.length_append] at fits
      rw [List.foldl_cons, extendHeld, if_pos (by omega), ih (by rw [List.length_append]; omega),
        List.append_assoc, List.flatMap_cons]

theorem ancestryPrefix_grows (trail : List (Int × Bool)) (node : Int × Bool) :
    ∃ more, ancestryPrefix (trail ++ [node]) = ancestryPrefix trail ++ more := by
  rw [ancestryPrefix_snoc]
  split
  · rename_i top
    exact ⟨[], by rw [top]; rfl⟩
  · unfold extendHeld
    split
    · exact ⟨_, rfl⟩
    · exact ⟨[], (List.append_nil _).symm⟩

namespace TreeDraw

/-- What a line shows of its path: how long it is, the text before the PID, the PID. -/
def look (line : TreeRow) : Nat × Bytes × Option Int := (line.depth + 1, line.indent, some line.pid)

def lookOf (path : List (Int × Bool)) : Nat × Bytes × Option Int :=
  (path.length, indentOf path, path.getLast?.map Prod.fst)

/-- The next row is the one below the lines so far. -/
def Next (draw : TreeDraw) : Prop := draw.row = 2 + draw.printed.length

/-- From one state to the next the paths are printed, as far as there are rows. -/
structure Lines (limit : Nat) (before after : TreeDraw) (paths : List (List (Int × Bool))) :
    Prop where
  next : after.Next
  looks : Fills limit (before.printed.map look) (after.printed.map look) (paths.map lookOf)

namespace Lines

variable {limit : Nat} {before middle after : TreeDraw} {paths more : List (List (Int × Bool))}

theorem trans (first : Lines limit before middle paths) (second : Lines limit middle after more) :
    Lines limit before after (paths ++ more) :=
  ⟨second.next, by rw [List.map_append]; exact first.looks.trans second.looks⟩

theorem length_le (lines : Lines limit before after paths) :
    before.printed.length ≤ after.printed.length := by
  simpa only [List.length_map] using lines.looks.length_le

theorem full (next : before.Next) (noRoom : limit ≤ before.printed.length)
    (paths : List (List (Int × Bool))) : Lines limit before before paths :=
  ⟨next, .full (by rwa [List.length_map]) _⟩

end Lines

/-- The line of a process whose trail the buffer holds. -/
theorem print_lines {limit : Nat} {draw : TreeDraw} (next : draw.Next)
    (room : draw.printed.length < limit) {trail : List (Int × Bool)}
    (holds : Holds draw.prefixCells (ancestryPrefix trail)) (termWidth : Int) (isLast : Bool)
    (p : ProcessInfo) :
    Lines limit draw (draw.print termWidth trail.length isLast p) [trail ++ [(p.pid, isLast)]] := by
  have indent : snprintf (treePrefixMax + 8) (cString draw.prefixCells ++
      if 0 < trail.length then (if isLast then text "└─ " else text "├─ ") else []) =
      indentOf (trail ++ [(p.pid, isLast)]) := by
    rw [holds.cString, indentOf_snoc]
    apply List.take_of_length_le
    have short := holds.room
    have own := length_branch isLast
    unfold branch at own
    rw [List.length_append]
    split <;> simp only [own, List.length_nil] <;> omega
  have shown : (draw.print termWidth trail.length isLast p).printed.map look =
      draw.printed.map look ++ [lookOf (trail ++ [(p.pid, isLast)])] := by
    simp only [print, List.map_append, List.map_cons, List.map_nil, look, lookOf, indent,
      List.length_append, List.length_singleton, List.getLast?_concat, Option.map_some]
  constructor
  · unfold Next at *
    simp [print, next, add_assoc]
  · rw [shown]
    exact .one (by rwa [List.length_map]) _

/-- The prefix of the children, with the buffer to match. -/
theorem extendChecked_holds {draw : TreeDraw} {trail : List (Int × Bool)}
    (holds : Holds draw.prefixCells (ancestryPrefix trail)) (node : Int × Bool) :
    ∃ extended, draw.extendChecked trail.length node.2 (ancestryPrefix trail).length =
        some (extended, (ancestryPrefix (trail ++ [node])).length) ∧
      Holds extended.prefixCells (ancestryPrefix (trail ++ [node])) ∧
      extended.row = draw.row ∧ extended.printed = draw.printed := by
  unfold extendChecked
  dsimp only
  rw [← segment, ancestryPrefix_snoc]
  by_cases fits : 0 < trail.length ∧
      (ancestryPrefix trail).length + (segment node.2).length < treePrefixMax
  · obtain ⟨below, short⟩ := fits
    have more := holds.append (zero_notMem_segment node.2) short
    rw [if_pos ⟨below, short⟩, if_neg (List.ne_nil_of_length_pos below), extendHeld, if_pos short,
      writeInside_of_le _ short.le, Option.bind_eq_bind, Option.bind_some,
      writeInside_of_le _ short]
    refine ⟨{ draw with prefixCells := _ }, ?_, more, rfl, rfl⟩
    rw [List.length_append]
    rfl
  · rw [if_neg fits]
    have same : (if trail = [] then [] else extendHeld (ancestryPrefix trail) node) =
        ancestryPrefix trail := by
      split
      · rename_i top
        rw [top]
        rfl
      · rename_i deeper
        exact if_neg fun short => fits ⟨List.length_pos_of_ne_nil deeper, short⟩
    rw [same]
    exact ⟨draw, rfl, holds, rfl, rfl⟩

theorem restoreChecked_holds {draw : TreeDraw} {trail : List (Int × Bool)} {node : Int × Bool}
    (holds : Holds draw.prefixCells (ancestryPrefix (trail ++ [node]))) :
    ∃ restored, draw.restoreChecked (ancestryPrefix trail).length = some restored ∧
      Holds restored.prefixCells (ancestryPrefix trail) ∧
      restored.row = draw.row ∧ restored.printed = draw.printed := by
  obtain ⟨more, grown⟩ := ancestryPrefix_grows trail node
  rw [grown] at holds
  have cut := holds.cut
  have short : (ancestryPrefix trail).length + 1 ≤ treePrefixMax := by
    have room := holds.room
    rw [List.length_append] at room
    omega
  refine ⟨{ draw with prefixCells := _ }, ?_, cut, rfl, rfl⟩
  rw [restoreChecked, writeInside_of_le _ short]
  rfl

end TreeDraw

/-! ## The calls -/

section Calls

variable {maxRow : Int} {calls : Nat} {held : Bytes} {below : Int × Bool → List (List (Int × Bool))}

/-- What a call has to do: print its lines and hand back the prefix. -/
def Draws (maxRow : Int) (calls : Nat) (held : Bytes)
    (drawKid : Int → Bool → TreeDraw → Option TreeDraw) (node : Int × Bool)
    (paths : List (List (Int × Bool))) : Prop :=
  ∀ draw : TreeDraw, draw.Next → Holds draw.prefixCells held →
    (maxRow - 2).toNat - draw.printed.length < calls →
      ∃ after, drawKid node.1 node.2 draw = some after ∧
        draw.Lines (maxRow - 2).toNat after paths ∧ Holds after.prefixCells held

theorem drawKids_lines {drawKid : Int → Bool → TreeDraw → Option TreeDraw}
    (one : ∀ node, Draws maxRow calls held drawKid node (below node)) (kids : List Int)
    {draw : TreeDraw} (next : draw.Next) (holds : Holds draw.prefixCells held)
    (enough : (maxRow - 2).toNat - draw.printed.length < calls) :
    ∃ after, drawKids drawKid kids draw = some after ∧
      draw.Lines (maxRow - 2).toNat after ((markLast kids).flatMap below) ∧
      Holds after.prefixCells held := by
  induction kids generalizing draw with
  | nil => exact ⟨draw, rfl, ⟨next, .nothing _ _⟩, holds⟩
  | cons kid kids ih =>
      obtain ⟨middle, drawn, lines, holds⟩ := one (kid, kids.isEmpty) draw next holds enough
      have less := lines.length_le
      obtain ⟨after, rest, lines', holds⟩ := ih lines.next holds (by omega)
      exact ⟨after, by rw [drawKids, drawn, Option.bind_some, rest], lines.trans lines', holds⟩

theorem drawRoots_lines {drawRoot : Int → Bool → TreeDraw → Option TreeDraw}
    (one : ∀ node, Draws maxRow calls held drawRoot node (below node)) (roots : List Int)
    {draw : TreeDraw} (next : draw.Next) (holds : Holds draw.prefixCells held)
    (enough : (maxRow - 2).toNat - draw.printed.length < calls) :
    ∃ after, drawRoots maxRow drawRoot roots draw = some after ∧
      draw.Lines (maxRow - 2).toNat after ((markLast roots).flatMap below) ∧
      Holds after.prefixCells held := by
  induction roots generalizing draw with
  | nil => exact ⟨draw, rfl, ⟨next, .nothing _ _⟩, holds⟩
  | cons root roots ih =>
      have row : draw.row = 2 + draw.printed.length := next
      by_cases noRoom : maxRow ≤ draw.row
      · exact ⟨draw, by rw [drawRoots, if_pos noRoom], .full next (by omega) _, holds⟩
      · obtain ⟨middle, drawn, lines, holds⟩ := one (root, roots.isEmpty) draw next holds enough
        have less := lines.length_le
        obtain ⟨after, rest, lines', holds⟩ := ih lines.next holds (by omega)
        refine ⟨after, ?_, lines.trans lines', holds⟩
        rw [drawRoots, if_neg noRoom, drawn, Option.bind_some, rest]

/-- The part of a call between its own line and its return: the children are drawn behind
    their longer prefix, and the shorter one comes back. -/
theorem drawBelow_lines {trail : List (Int × Bool)} {node : Int × Bool}
    {drawKid : Int → Bool → TreeDraw → Option TreeDraw}
    (one : ∀ kid, Draws maxRow calls (ancestryPrefix (trail ++ [node])) drawKid kid (below kid))
    (kids : List Int) {draw : TreeDraw} (next : draw.Next)
    (holds : Holds draw.prefixCells (ancestryPrefix trail))
    (enough : (maxRow - 2).toNat - draw.printed.length < calls) :
    ∃ extended drawn restored,
      draw.extendChecked trail.length node.2 (ancestryPrefix trail).length =
        some (extended, (ancestryPrefix (trail ++ [node])).length) ∧
      drawKids drawKid kids extended = some drawn ∧
      drawn.restoreChecked (ancestryPrefix trail).length = some restored ∧
      draw.Lines (maxRow - 2).toNat restored ((markLast kids).flatMap below) ∧
      Holds restored.prefixCells (ancestryPrefix trail) := by
  obtain ⟨extended, extends', held, row, printed⟩ := TreeDraw.extendChecked_holds holds node
  have begun : extended.Next := by
    rw [TreeDraw.Next, row, printed]
    exact next
  obtain ⟨drawn, children, lines, held⟩ := drawKids_lines one kids begun held
    (by rw [printed]; exact enough)
  obtain ⟨restored, restores, still, row', printed'⟩ := TreeDraw.restoreChecked_holds held
  have whole : draw.Lines (maxRow - 2).toNat restored ((markLast kids).flatMap below) := by
    constructor
    · rw [TreeDraw.Next, row', printed']
      exact lines.next
    · rw [printed', ← printed]
      exact lines.looks
  exact ⟨extended, drawn, restored, extends', children, restores, whole, still⟩

end Calls

namespace ProcessTree

variable (tree : ProcessTree) {calls : Nat} {trail : List (Int × Bool)} {node : Int × Bool}

theorem lines_none (missing : tree.entry node.1 = none) :
    tree.lines (calls + 1) trail node = [] := by
  rw [lines, missing]
  rfl

theorem lines_some {p : ProcessInfo} (entry : tree.entry node.1 = some p) :
    tree.lines (calls + 1) trail node = [trail ++ [node]] ++
      (markLast (tree.children node.1)).flatMap (tree.lines calls (trail ++ [node])) := by
  rw [lines, entry, Option.isSome_some, if_pos rfl, walk_succ, below, walks_filter]
  rfl

end ProcessTree

/-- A call whose buffer holds the bars of its trail prints the lines of its node and of what
    is below, each with its own bars, and every call in it hands back its prefix. By
    induction on how deep the calls may go. -/
theorem drawTreeChecked_draws (termWidth : Int) (tree : ProcessTree) (maxRow : Int) (calls : Nat)
    (trail : List (Int × Bool)) (node : Int × Bool) :
    Draws maxRow calls (ancestryPrefix trail)
      (fun pid isLast draw => drawTreeChecked termWidth tree maxRow calls pid trail.length isLast
        (ancestryPrefix trail).length draw) node (tree.lines calls trail node) := by
  induction calls generalizing trail node with
  | zero =>
      intro draw _ _ enough
      omega
  | succ calls ih =>
      intro draw next holds enough
      have row : draw.row = 2 + draw.printed.length := next
      have handed (after : TreeDraw) (still : Holds after.prefixCells (ancestryPrefix trail)) :
          TreeDraw.Returned draw after := ⟨still.size, still.cString.trans holds.cString.symm⟩
      dsimp only
      rw [drawTreeChecked]
      by_cases noRoom : maxRow ≤ draw.row
      · refine ⟨draw, ?_, .full next (by omega) _, holds⟩
        simp only [if_pos noRoom, Option.bind_some, if_pos (handed draw holds)]
      · simp only [if_neg noRoom]
        cases entry : tree.entry node.1 with
        | none =>
            refine ⟨draw, ?_, tree.lines_none entry ▸ ⟨next, .nothing _ _⟩, holds⟩
            simp only [Option.bind_some, if_pos (handed draw holds)]
        | some p =>
            have same : (p.pid, node.2) = node := by rw [tree_entry_pid entry]
            have line := TreeDraw.print_lines next (by omega : draw.printed.length <
              (maxRow - 2).toNat) holds termWidth node.2 p
            rw [same] at line
            rw [tree.lines_some entry]
            dsimp only
            let printed := draw.print termWidth trail.length node.2 p
            by_cases leaf : tree.children node.1 = []
            · refine ⟨printed, ?_, ?_, holds⟩
              · simp only [if_pos leaf, Option.bind_some]
                exact if_pos (handed printed holds)
              · rw [leaf]
                exact line
            · simp only [if_neg leaf]
              have one := ih (trail ++ [node])
              rw [List.length_append, List.length_singleton] at one
              have taken : printed.printed.length = draw.printed.length + 1 := by
                simp [printed, TreeDraw.print]
              obtain ⟨extended, drawn, restored, extends', kids, restores, rest, still⟩ :=
                drawBelow_lines one (tree.children node.1) line.next
                  (show Holds printed.prefixCells (ancestryPrefix trail) from holds)
                  (by rw [taken]; omega)
              refine ⟨restored, ?_, line.trans rest, still⟩
              rw [extends', Option.bind_eq_bind, Option.bind_some]
              dsimp only
              rw [kids, Option.bind_eq_bind, Option.bind_some, restores, Option.bind_some]
              exact if_pos (handed restored still)

/-! ## The window -/

/-- `Ui.drawTree` with the checked calls. -/
def Ui.drawTreeChecked (ui : Ui) (stack : Bytes) (tree : ProcessTree) : Option TreeDraw :=
  let maxRow := ui.termHeight - 10
  let drawRoot root isLast draw :=
    KernelMonitor.drawTreeChecked ui.termWidth tree maxRow ((maxRow - 2).toNat + 1) root 0 isLast 0
      draw
  drawRoots maxRow drawRoot tree.roots ⟨2, writeBytes stack 0 [0], []⟩

theorem mem_markLast {kids : List Int} {node : Int × Bool} (member : node ∈ markLast kids) :
    ∃ earlier later, kids = earlier ++ node.1 :: later ∧ (node.2 = true ↔ later = []) := by
  induction kids with
  | nil => cases member
  | cons kid kids ih =>
      rcases List.mem_cons.mp member with rfl | behind
      · exact ⟨[], kids, rfl, List.isEmpty_iff⟩
      · obtain ⟨earlier, later, rfl, marked⟩ := ih behind
        exact ⟨kid :: earlier, later, rfl, marked⟩

/-- The second node is drawn as a child of the first, marked as the last where no sibling
    comes after it. -/
def ProcessTree.ChildOf (tree : ProcessTree) (above node : Int × Bool) : Prop :=
  ∃ earlier later, tree.children above.1 = earlier ++ node.1 :: later ∧
    (node.2 = true ↔ later = [])

theorem path_childOf {tree : ProcessTree} {path : List (Int × Bool)} {node : Int × Bool}
    (reached : PathTo tree.below tree.tops path node) : path.IsChain tree.ChildOf := by
  induction reached with
  | root listed => exact .singleton _
  | down above child ih =>
      rw [List.isChain_append]
      refine ⟨ih, .singleton _, ?_⟩
      intro last isLast node isNode
      rw [above.getLast] at isLast
      cases isLast
      cases isNode
      exact mem_markLast (List.mem_of_mem_filter child)

/-- The lines of a window are the paths of the calls, in order, each with the text before
    its PID. -/
theorem drawTreeChecked_looks (ui : Ui) {stack : Bytes} (size : stack.length = treePrefixMax)
    (tree : ProcessTree) :
    ∃ draw, ui.drawTreeChecked stack tree = some draw ∧
      draw.printed.map TreeDraw.look =
        ((walks tree.below ((ui.termHeight - 12).toNat + 1) [] tree.tops).take
          (ui.termHeight - 12).toNat).map TreeDraw.lookOf := by
  have budget : (ui.termHeight - 10 - 2).toNat = (ui.termHeight - 12).toNat := by omega
  have one := drawTreeChecked_draws ui.termWidth tree (ui.termHeight - 10)
    ((ui.termHeight - 10 - 2).toNat + 1) []
  obtain ⟨draw, drawn, lines, _⟩ := drawRoots_lines one tree.roots
    (show TreeDraw.Next ⟨2, writeBytes stack 0 [0], []⟩ from rfl) (.empty size)
    (Nat.lt_succ_of_le (Nat.sub_le _ _))
  refine ⟨draw, drawn, ?_⟩
  have looks := lines.looks
  rw [budget] at looks
  have paths : (markLast tree.roots).flatMap
      (tree.lines ((ui.termHeight - 12).toNat + 1) []) =
      walks tree.below ((ui.termHeight - 12).toNat + 1) [] tree.tops := by
    rw [ProcessTree.tops, walks_filter]
    rfl
  rw [Fills, paths, List.map_nil, List.nil_append, List.length_nil, Nat.sub_zero,
    ← List.map_take] at looks
  exact looks

/-- The ancestors that put a segment before the PID of a path's last node: all but that
    node and the root. -/
def ancestors (path : List (Int × Bool)) : List (Int × Bool) := (path.drop 1).dropLast

theorem indentOf_fits {path : List (Int × Bool)} {node : Int × Bool}
    (last : path.getLast? = some node) (deep : 1 < path.length)
    (fits : ((ancestors path).flatMap fun above => segment above.2).length < treePrefixMax) :
    indentOf path =
      ((ancestors path).flatMap fun above => segment above.2) ++ branch node.2 := by
  have above : path.dropLast.drop 1 = ancestors path := by
    unfold ancestors
    cases path with
    | nil => rfl
    | cons root path => cases path <;> rfl
  have held : (ancestors path).foldl extendHeld [] =
      [] ++ (ancestors path).flatMap fun above => segment above.2 :=
    foldl_extendHeld (by simpa using fits)
  rw [indentOf, ancestryPrefix, above, held, if_pos deep, last]
  rfl

/-- The text before the PID of a line, where the segments of its ancestors fit: their bars
    and blanks, then the tee or corner of the line itself. The lines are those of the calls
    in preorder. Every call hands the prefix back as it got it and no write leaves the
    buffer, whether or not the segments fit. -/
theorem tree_lines_prefixed (ui : Ui) {stack : Bytes} (size : stack.length = treePrefixMax)
    (tree : ProcessTree) :
    ∃ draw, ui.drawTree stack tree = some draw ∧ ui.drawTreeChecked stack tree = some draw ∧
      ∀ (i : Nat) line, draw.printed[i]? = some line → ∃ path node,
        (walks tree.below ((ui.termHeight - 12).toNat + 1) [] tree.tops)[i]? = some path ∧
        path.IsChain tree.ChildOf ∧ line.depth + 1 = path.length ∧
        path.getLast? = some node ∧ line.pid = node.1 ∧
        (0 < line.depth →
          ((ancestors path).flatMap fun above => segment above.2).length < treePrefixMax →
            line.indent =
              ((ancestors path).flatMap fun above => segment above.2) ++ branch node.2) := by
  obtain ⟨draw, checked, looks⟩ := drawTreeChecked_looks ui size tree
  refine ⟨draw, ?_, checked, ?_⟩
  · exact drawRoots_more (fun root isLast draw after => drawTreeChecked_sound) checked
  · intro i line there
    have seen : (draw.printed.map TreeDraw.look)[i]? = some (TreeDraw.look line) := by
      rw [List.getElem?_map, there, Option.map_some]
    rw [looks, List.getElem?_map] at seen
    obtain ⟨path, first, same⟩ := Option.map_eq_some_iff.mp seen
    rw [List.getElem?_take] at first
    split at first
    case isFalse => cases first
    obtain ⟨node, reached⟩ := walks_sound (List.mem_of_getElem? first)
    have last := reached.getLast
    unfold TreeDraw.look TreeDraw.lookOf at same
    rw [last, Option.map_some, Prod.mk.injEq, Prod.mk.injEq, Option.some.injEq] at same
    obtain ⟨length, indent, pid⟩ := same
    refine ⟨path, node, first, path_childOf reached, length.symm, last, pid.symm, ?_⟩
    intro deep fits
    rw [← indent]
    exact indentOf_fits last (by omega) fits

example : indentOf [(1, false), (3, false), (12, true), (20, true)] = text "│     └─ " := by
  decide +kernel

/-- The line of 12, below its parent 3. -/
theorem tree_lines_prefixed_example :
    ∃ tree draw line, processTreeBuild ⟨true, some fun _ => -1⟩ exampleFamily = some tree ∧
      (Ui.init 80 24).drawTree (List.replicate 512 0) tree = some draw ∧
      draw.printed[1]? = some line ∧ line.pid = 12 ∧ line.depth = 1 ∧
      ∃ (path : List (Int × Bool)) (node : Int × Bool), path.IsChain tree.ChildOf ∧
        path.length = 2 ∧ path.getLast? = some node ∧ line.indent = branch node.2 := by
  let answers : TreeMemory := ⟨true, some fun _ => -1⟩
  let window : Ui := .init 80 24
  obtain ⟨tree, built⟩ := Option.isSome_iff_exists.mp
    (by decide +kernel : (processTreeBuild answers exampleFamily).isSome)
  have size : (List.replicate 512 (0 : UInt8)).length = treePrefixMax := List.length_replicate
  obtain ⟨draw, drawn, _, lines⟩ := tree_lines_prefixed window size tree
  have second : ((processTreeBuild answers exampleFamily).bind fun tree =>
      (window.drawTree (List.replicate 512 0) tree).bind fun draw =>
        draw.printed[1]?.map fun line => (line.pid, line.depth)) = some (12, 1) := by
    decide +kernel
  have above : ((processTreeBuild answers exampleFamily).bind fun tree =>
      (walks tree.below ((window.termHeight - 12).toNat + 1) [] tree.tops)[1]?.map fun path =>
        (ancestors path).flatMap fun above => segment above.2) = some [] := by
    decide +kernel
  rw [built, Option.bind_some, drawn, Option.bind_some] at second
  obtain ⟨line, there, named⟩ := Option.map_eq_some_iff.mp second
  obtain ⟨pid, depth⟩ := Prod.mk.inj named
  obtain ⟨path, node, walk, chain, length, last, _, prefixed⟩ := lines 1 line there
  rw [built, Option.bind_some, walk, Option.map_some, Option.some.injEq] at above
  have indent := prefixed (by omega) (by rw [above]; decide)
  rw [above, List.nil_append] at indent
  exact ⟨tree, draw, line, built, drawn, there, pid, depth, path, node, chain, by omega, last,
    indent⟩

end KernelMonitor
