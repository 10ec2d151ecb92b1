import KernelMonitor.Library.ReplayLog

/-! # A bounded window in an array

The window of `ReplayLog` as a program keeps it: a fixed row of cells and a count.
A full window is moved down by one cell before the next entry goes behind the others.
-/

namespace KernelMonitor.Library

/-- `size` cells, of which the first `count` are in use. -/
structure BoundedWindow (Entry : Type*) (size : Nat) where
  cells : List Entry
  count : Nat
  width : cells.length = size
  fits : count ≤ size

theorem rtake_rtake {Entry : Type*} {log : List Entry} {few many : Nat} (fewer : few ≤ many) :
    (log.rtake many).rtake few = log.rtake few := by
  unfold List.rtake
  rw [List.drop_drop, List.length_drop]
  congr 1
  omega

namespace BoundedWindow

variable {Entry : Type*} {size : Nat}

/-- No entries yet; the cells hold something. -/
def empty (size : Nat) (filler : Entry) : BoundedWindow Entry size where
  cells := List.replicate size filler
  count := 0
  width := List.length_replicate
  fits := Nat.zero_le _

/-- The entries, oldest first. -/
def contents (window : BoundedWindow Entry size) : List Entry := window.cells.take window.count

/-- Every cell but the first moved down by one; the last one stays as it is. -/
def moveDown (window : BoundedWindow Entry size) : BoundedWindow Entry size where
  cells := (window.cells.drop 1).take (size - 1) ++ window.cells.drop (size - 1)
  count := size - 1
  width := by
    simp only [List.length_append, List.length_take, List.length_drop, window.width]
    omega
  fits := Nat.sub_le _ _

def makeRoom (window : BoundedWindow Entry size) : BoundedWindow Entry size :=
  if window.count = size then window.moveDown else window

theorem makeRoom_count (positive : 0 < size) (window : BoundedWindow Entry size) :
    window.makeRoom.count + 1 ≤ size := by
  have fits := window.fits
  unfold makeRoom
  split
  · exact (Nat.sub_add_cancel positive).le
  · omega

/-- The next entry goes to `cells[count++]`. -/
def push (positive : 0 < size) (window : BoundedWindow Entry size) (entry : Entry) :
    BoundedWindow Entry size where
  cells := window.makeRoom.cells.set window.makeRoom.count entry
  count := window.makeRoom.count + 1
  width := List.length_set.trans window.makeRoom.width
  fits := window.makeRoom_count positive

/-- Where the last `wanted` entries start and how many there are. -/
def recent (window : BoundedWindow Entry size) (wanted : Nat) : Nat × Nat :=
  if window.count ≤ wanted then (0, window.count) else (window.count - wanted, wanted)

/-- `length` cells from `start` on. -/
def slice (window : BoundedWindow Entry size) (start length : Nat) : List Entry :=
  (window.cells.drop start).take length

theorem contents_empty (filler : Entry) : (empty size filler).contents = [] := List.take_zero

theorem length_contents (window : BoundedWindow Entry size) :
    window.contents.length = window.count := by
  rw [contents, List.length_take, window.width, Nat.min_eq_left window.fits]

theorem contents_makeRoom (window : BoundedWindow Entry size) :
    window.makeRoom.contents =
      if window.contents.length = size then window.contents.drop 1 else window.contents := by
  rw [length_contents, makeRoom]
  by_cases full : window.count = size
  · have whole : window.contents = window.cells :=
      List.take_of_length_le (window.width.trans full.symm).le
    have moved : ((window.cells.drop 1).take (size - 1)).length = size - 1 := by
      rw [List.length_take, List.length_drop, window.width, Nat.min_self]
    rw [if_pos full, if_pos full, whole, contents, moveDown]
    dsimp only
    rw [List.take_append_of_le_length moved.ge, List.take_take, Nat.min_self,
      List.take_of_length_le]
    rw [List.length_drop, window.width]
  · rw [if_neg full, if_neg full]

/-- The array does what the window as a list does. -/
theorem contents_push (positive : 0 < size) (window : BoundedWindow Entry size) (entry : Entry) :
    (window.push positive entry).contents = pushWindow size window.contents entry := by
  have room := window.makeRoom_count positive
  have inside : window.makeRoom.count < window.makeRoom.cells.length := by
    rw [window.makeRoom.width]
    omega
  rw [pushWindow, ← contents_makeRoom, contents, push, contents]
  dsimp only
  rw [List.take_succ_eq_append_getElem (by rwa [List.length_set]), List.getElem_set_self,
    List.take_set_of_le le_rfl]

/-- After any burst the window holds the end of the whole log. -/
theorem contents_foldl_push (positive : 0 < size) {window : BoundedWindow Entry size}
    {log : List Entry} (holds : window.contents = log.rtake size) (burst : List Entry) :
    (burst.foldl (push positive) window).contents = (log ++ burst).rtake size := by
  induction burst generalizing window log with
  | nil => rwa [List.append_nil]
  | cons entry burst ih =>
      have next : (window.push positive entry).contents = (log ++ [entry]).rtake size := by
        rw [contents_push, holds, pushWindow_rtake positive]
      simpa only [List.foldl_cons, List.append_assoc, List.singleton_append] using ih next

/-- The slice is the end of the contents, as long as it was asked to be or whole. -/
theorem slice_recent (window : BoundedWindow Entry size) (wanted : Nat) :
    (window.recent wanted).2 = min wanted window.count ∧
      window.slice (window.recent wanted).1 (window.recent wanted).2 =
        window.contents.rtake (min wanted window.count) := by
  unfold recent
  by_cases all : window.count ≤ wanted
  · have none : window.contents.length - window.count = 0 := by rw [length_contents, Nat.sub_self]
    rw [if_pos all, Nat.min_eq_right all, List.rtake, none]
    exact ⟨rfl, rfl⟩
  · have some : wanted ≤ window.count := by omega
    rw [if_neg all, Nat.min_eq_left some, List.rtake, length_contents, contents, List.drop_take,
      Nat.sub_sub_self some]
    exact ⟨rfl, rfl⟩

end BoundedWindow

end KernelMonitor.Library
