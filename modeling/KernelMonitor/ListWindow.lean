import KernelMonitor.Library.IndexLoop
import KernelMonitor.ListOrder
import KernelMonitor.Selection

/-! # The window over the process list

The table, the highlight and the scroll offset change at different times: the sample and
the terminal may shrink between two draws, and a change of view resets the offset alone.
A draw puts the highlight back on a row and the row back into the window. It does not
pull the window back over a shorter list.
-/

namespace KernelMonitor

open Library

/-! ## The draw with its bounds checked -/

namespace Ui

/-- `km_ui_selected_pid`, with its index checked. -/
def selectedPidChecked (ui : Ui) : Option Int :=
  if ui.displayedPids.length = 0 ∨ ui.displayedPids.length ≤ ui.selectedIndex then some (-1)
  else ui.displayedPids[ui.selectedIndex]?

/-- The search for the old selection, and the clamp behind it. -/
def followChecked (ui : Ui) (previouslySelected : Int) : Option Ui := do
  let ui ←
    if 0 < previouslySelected then do
      let place ← findLoop ui.displayedPids previouslySelected ui.displayedPids.length 0
      match place with
      | some i => some { ui with selectedIndex := i }
      | none => some ui
    else some ui
  if 0 < ui.displayedPids.length ∧ ui.displayedPids.length ≤ ui.selectedIndex then do
    let last ← checkedSub ui.displayedPids.length 1
    some { ui with selectedIndex := last }
  else some ui

/-- The two corrections of the scroll offset. -/
def scrollToChecked (ui : Ui) (visibleCount : Nat) : Option Ui := do
  let ui ←
    if ui.scrollOffset + visibleCount ≤ ui.selectedIndex then do
      let above ← checkedSub ui.selectedIndex visibleCount
      some { ui with scrollOffset := above + 1 }
    else some ui
  some (if ui.selectedIndex < ui.scrollOffset then { ui with scrollOffset := ui.selectedIndex }
    else ui)

/-- `draw_process_list` down to the rows it prints, each with its index in the table. It
    has no result where a `size_t` wraps or an index reaches the count; `none` for the
    rows is `Out of memory`. -/
def drawListChecked (mem : DrawMemory) (ui : Ui) (m : ProcessMonitor) :
    Option (Ui × Option (List (ProcessInfo × Nat))) :=
  match reserveRows mem.sorted ui.sortedCapacity m.count with
  | none => some (ui, none)
  | some sortedCapacity =>
      let ui := { ui with sortedCapacity := sortedCapacity }
      match reserveRows mem.displayed ui.displayedCapacity m.count with
      | none => some (ui, none)
      | some displayedCapacity => do
          let previouslySelected ← ui.selectedPidChecked
          let pointers ← copyLoop m.processes.cells m.count 0
          let sorted := qsort compareByCpu pointers
          let shown ← copyLoop sorted m.count 0
          let ui := { ui with
            displayedCapacity := displayedCapacity
            displayedPids := shown.map ProcessInfo.pid }
          let ui ← ui.followChecked previouslySelected
          let visibleCount := min (ui.termHeight - 9).toNat m.count
          let ui ← ui.scrollToChecked visibleCount
          let rows ← windowLoop sorted ui.scrollOffset visibleCount m.count 0
          some (ui, some rows)

end Ui

/-- The rows of a process list that are on the screen, with their indices. -/
def Content.listRows : Content → Option (List (ProcessInfo × Nat))
  | .processList table _ scroll visible => some (((table.drop scroll).take visible).zipIdx scroll)
  | _ => none

namespace Ui

theorem selectedPidChecked_eq (ui : Ui) : ui.selectedPidChecked = some ui.selectedPid := by
  unfold selectedPidChecked selectedPid
  split
  · rename_i outside
    rw [List.getElem?_eq_none (by omega)]
    rfl
  · rename_i inside
    have there : ui.selectedIndex < ui.displayedPids.length := by omega
    rw [List.getElem?_eq_getElem there]
    rfl

theorem followChecked_eq (ui : Ui) (pid : Int) : ui.followChecked pid = some (ui.follow pid) := by
  unfold followChecked follow
  have clamp (ui : Ui) :
      (if 0 < ui.displayedPids.length ∧ ui.displayedPids.length ≤ ui.selectedIndex then do
        let last ← checkedSub ui.displayedPids.length 1
        some { ui with selectedIndex := last }
      else some ui) =
      some (if 0 < ui.displayedPids.length ∧ ui.displayedPids.length ≤ ui.selectedIndex then
        { ui with selectedIndex := ui.displayedPids.length - 1 }
      else ui) := by
    split
    · rename_i past
      rw [checkedSub_of_le (by omega)]
      rfl
    · rfl
  simp only [findLoop_eq, List.drop_zero, Nat.add_zero, Option.map_id', clamp]
  by_cases positive : 0 < pid
  · simp only [if_pos positive]
    cases ui.displayedPids.idxOf? pid <;> rfl
  · simp only [if_neg positive]
    rfl

theorem scrollToChecked_eq (ui : Ui) (visibleCount : Nat) :
    ui.scrollToChecked visibleCount = some (ui.scrollTo visibleCount) := by
  unfold scrollToChecked scrollTo
  by_cases past : ui.scrollOffset + visibleCount ≤ ui.selectedIndex
  · simp only [if_pos past, checkedSub_of_le (show visibleCount ≤ ui.selectedIndex by omega)]
    rfl
  · simp only [if_neg past]
    rfl

/-- The checks never fail, and without them this is the draw. -/
theorem drawListChecked_eq (mem : DrawMemory) (ui : Ui) {m : ProcessMonitor}
    (inside : m.count ≤ m.processes.cells.length) :
    ui.drawListChecked mem m =
      some ((ui.drawProcessList mem m).1, (ui.drawProcessList mem m).2.listRows) := by
  have length : (qsort compareByCpu m.sample).length = m.count := by
    rw [length_qsort, ProcessMonitor.sample, List.length_take, min_eq_left inside]
  have pointers : copyLoop m.processes.cells m.count 0 = some m.sample := by
    rw [copyLoop_eq inside, List.drop_zero]
    rfl
  have table : copyLoop (qsort compareByCpu m.sample) m.count 0 =
      some (qsort compareByCpu m.sample) := by
    rw [← length, copyLoop_eq le_rfl, List.take_length, List.drop_zero]
  have window (start size : Nat) :
      windowLoop (qsort compareByCpu m.sample) start size m.count 0 =
        some ((((qsort compareByCpu m.sample).drop start).take size).zipIdx start) := by
    rw [← length, windowLoop_eq]
    simp only [Nat.add_zero, Nat.sub_zero]
  unfold drawListChecked drawProcessList
  cases reserveRows mem.sorted ui.sortedCapacity m.count with
  | none => rfl
  | some sortedCapacity =>
      dsimp only
      cases reserveRows mem.displayed ui.displayedCapacity m.count with
      | none => rfl
      | some displayedCapacity =>
          simp only [selectedPidChecked_eq, pointers, Option.bind_eq_bind, Option.bind_some,
            table, followChecked_eq, scrollToChecked_eq, window]
          rfl

end Ui

/-! ## One draw -/

/-- The highlight is on a row, where there are rows. -/
def Ui.OnRow (ui : Ui) : Prop :=
  0 < ui.displayedPids.length → ui.selectedIndex < ui.displayedPids.length

theorem le_doubleUntil {needed cap : Nat} (some : 0 < cap) : needed ≤ doubleUntil needed cap := by
  fun_induction doubleUntil needed cap with
  | case1 cap more ih => exact ih (by omega)
  | case2 cap done => omega

theorem reserveRows_room {grows : Bool} {cap needed after : Nat}
    (reserved : reserveRows grows cap needed = some after) : needed ≤ after := by
  unfold reserveRows at reserved
  split at reserved
  · split at reserved
    · obtain rfl := Option.some.inj reserved
      exact le_doubleUntil (by split <;> omega)
    · cases reserved
  · obtain rfl := Option.some.inj reserved
    omega

namespace Ui

/-- Where the search for a PID leaves the highlight, before the clamp. -/
def sought (ui : Ui) (pid : Int) : Nat :=
  if 0 < pid then (ui.displayedPids.idxOf? pid).getD ui.selectedIndex else ui.selectedIndex

theorem follow_eq (ui : Ui) (pid : Int) :
    ui.follow pid = { ui with
      selectedIndex :=
        if 0 < ui.displayedPids.length then min (ui.sought pid) (ui.displayedPids.length - 1)
        else ui.sought pid } := by
  have clamp (i : Nat) :
      (if 0 < ui.displayedPids.length ∧ ui.displayedPids.length ≤ i then
        { ui with selectedIndex := ui.displayedPids.length - 1 }
      else { ui with selectedIndex := i }) =
      { ui with
        selectedIndex :=
          if 0 < ui.displayedPids.length then min i (ui.displayedPids.length - 1) else i } := by
    split <;> congr 1 <;> split <;> omega
  unfold follow sought
  by_cases positive : 0 < pid
  · simp only [if_pos positive]
    cases ui.displayedPids.idxOf? pid with
    | none => exact clamp ui.selectedIndex
    | some i => exact clamp i
  · simp only [if_neg positive]
    exact clamp ui.selectedIndex

@[simp] theorem follow_scrollOffset (ui : Ui) (pid : Int) :
    (ui.follow pid).scrollOffset = ui.scrollOffset := by
  rw [follow_eq]

@[simp] theorem follow_sortedCapacity (ui : Ui) (pid : Int) :
    (ui.follow pid).sortedCapacity = ui.sortedCapacity := by
  rw [follow_eq]

@[simp] theorem follow_displayedCapacity (ui : Ui) (pid : Int) :
    (ui.follow pid).displayedCapacity = ui.displayedCapacity := by
  rw [follow_eq]

theorem follow_onRow (ui : Ui) (pid : Int) : (ui.follow pid).OnRow := by
  intro some
  rw [follow_eq] at some ⊢
  dsimp only at some ⊢
  rw [if_pos some]
  omega

/-- The window moves down to the highlight, then up to it. -/
theorem scrollTo_eq (ui : Ui) (visibleCount : Nat) :
    ui.scrollTo visibleCount = { ui with
      scrollOffset := min
        (if ui.scrollOffset + visibleCount ≤ ui.selectedIndex then
          ui.selectedIndex - visibleCount + 1
        else ui.scrollOffset) ui.selectedIndex } := by
  have up (offset : Nat) :
      (if ui.selectedIndex < offset then { ui with scrollOffset := ui.selectedIndex }
      else { ui with scrollOffset := offset }) =
      { ui with scrollOffset := min offset ui.selectedIndex } := by
    split <;> congr 1 <;> omega
  unfold scrollTo
  by_cases past : ui.scrollOffset + visibleCount ≤ ui.selectedIndex
  · simp only [if_pos past]
    exact up (ui.selectedIndex - visibleCount + 1)
  · simp only [if_neg past]
    exact up ui.scrollOffset

@[simp] theorem scrollTo_selectedIndex (ui : Ui) (visibleCount : Nat) :
    (ui.scrollTo visibleCount).selectedIndex = ui.selectedIndex := by
  rw [scrollTo_eq]

@[simp] theorem scrollTo_sortedCapacity (ui : Ui) (visibleCount : Nat) :
    (ui.scrollTo visibleCount).sortedCapacity = ui.sortedCapacity := by
  rw [scrollTo_eq]

@[simp] theorem scrollTo_displayedCapacity (ui : Ui) (visibleCount : Nat) :
    (ui.scrollTo visibleCount).displayedCapacity = ui.displayedCapacity := by
  rw [scrollTo_eq]

theorem scrollTo_window (ui : Ui) {visibleCount : Nat} (some : 0 < visibleCount) :
    (ui.scrollTo visibleCount).scrollOffset ≤ ui.selectedIndex ∧
      ui.selectedIndex < (ui.scrollTo visibleCount).scrollOffset + visibleCount := by
  rw [scrollTo_eq]
  dsimp only
  split <;> omega

/-- The UI with the rows of a new table, before the highlight and the window follow. -/
def withRows (ui : Ui) (sortedCapacity displayedCapacity : Nat) (m : ProcessMonitor) : Ui :=
  { ui with
    sortedCapacity := sortedCapacity
    displayedCapacity := displayedCapacity
    displayedPids := (qsort compareByCpu m.sample).map ProcessInfo.pid }

/-- What a list draw leaves behind and what it shows: out of memory, or the new table. -/
theorem drawProcessList_cases (mem : DrawMemory) (ui : Ui) (m : ProcessMonitor) :
    (∃ capacity, ui.drawProcessList mem m =
      ({ ui with sortedCapacity := capacity }, .outOfMemory)) ∨
    ∃ sortedCapacity displayedCapacity, m.count ≤ sortedCapacity ∧ m.count ≤ displayedCapacity ∧
      let visible := min (ui.termHeight - 9).toNat m.count
      let drawn :=
        ((ui.withRows sortedCapacity displayedCapacity m).follow ui.selectedPid).scrollTo visible
      ui.drawProcessList mem m = (drawn, .processList (qsort compareByCpu m.sample)
        drawn.selectedIndex drawn.scrollOffset visible) := by
  unfold drawProcessList
  cases first : reserveRows mem.sorted ui.sortedCapacity m.count with
  | none => exact .inl ⟨_, rfl⟩
  | some sortedCapacity =>
      dsimp only
      cases second : reserveRows mem.displayed ui.displayedCapacity m.count with
      | none => exact .inl ⟨_, rfl⟩
      | some displayedCapacity =>
          right
          refine ⟨sortedCapacity, displayedCapacity, reserveRows_room first,
            reserveRows_room second, ?_⟩
          simp only [follow_eq]
          rfl

end Ui

/-! ## The sample stays inside its block -/

/-- The entries counted are cells of their block, for both buffers. -/
structure ProcessMonitor.Fits (m : ProcessMonitor) : Prop where
  cells : m.processes.cells.length = m.capacity
  count : m.count ≤ m.capacity
  scratch : ScratchFits m

namespace ProcessMonitor.Fits

variable {m : ProcessMonitor}

theorem inside (fits : m.Fits) : m.count ≤ m.processes.cells.length := by
  rw [fits.cells]
  exact fits.count

theorem length_sample (fits : m.Fits) : m.sample.length = m.count := by
  rw [sample, List.length_take, min_eq_left fits.inside]

theorem collect (fits : m.Fits) (w : Sweep) : (KernelMonitor.collect w m).Fits := by
  obtain ⟨processes, count, capacity, _⟩ := collect_frame w m
  refine ⟨?_, ?_, (collect_built w fits.scratch.cells).1⟩
  · rw [processes, capacity, fits.cells]
  · rw [count, capacity]
    exact fits.count

/-- The buffers change places with their counts. -/
theorem publish (fits : m.Fits) (time : Stamps) : (KernelMonitor.publish time m).Fits := by
  obtain ⟨events, swapped⟩ := publish_swap time m
  rw [swapped]
  exact ⟨fits.scratch.cells, fits.scratch.count, ⟨fits.cells, Nat.zero_le _⟩⟩

theorem sweepStep (fits : m.Fits) {w : Sweep} {point next : SweepPoint} {after : ProcessMonitor}
    (step : KernelMonitor.sweepStep w (point, m) = some (next, after)) : after.Fits := by
  cases point with
  | start =>
      cases step
      exact ⟨fits.cells, fits.count, ⟨fits.scratch.cells, Nat.zero_le _⟩⟩
  | loop seconds rest =>
      cases rest with
      | nil =>
          cases step
          exact fits
      | cons pid rest =>
          simp only [KernelMonitor.sweepStep] at step
          cases reserved : incomingReserve (w.growIncoming pid) m with
          | none =>
              rw [reserved] at step
              cases step
              exact fits
          | some grown =>
              rw [reserved] at step
              cases step
              obtain ⟨scratch, _, _, room⟩ := incomingReserve_room fits.scratch reserved
              have only := (incomingReserve_scratchOnly reserved).trans
                (collectPid_scratchOnly w seconds pid grown)
              refine ⟨?_, ?_, (collectPid_built w seconds pid scratch room).1⟩
              · rw [only.processes, only.capacity, fits.cells]
              · rw [only.count, only.capacity]
                exact fits.count
  | finish =>
      cases step
      exact ⟨fits.cells, fits.count, ⟨fits.scratch.cells, fits.scratch.count⟩⟩
  | done => cases step

end ProcessMonitor.Fits

theorem CollectorStep.fits {c next : Collector} {label : CollectorLabel}
    (step : CollectorStep c label next) (fits : c.proc.Fits) : next.proc.Fits := by
  cases step with
  | sweep there step => exact fits.sweepStep step
  | publish there => exact fits.publish _
  | _ => exact fits

theorem main_fits {s : MainLoop} (reachable : mainSystem.Reachable s) : s.col.proc.Fits := by
  apply reachable.invariant (P := fun s => s.col.proc.Fits)
  · rintro _ ⟨host, _, _, _, w, time, _, _, _, rfl⟩
    have fresh : (ProcessMonitor.init host).Fits := ⟨rfl, le_rfl, rfl, le_rfl⟩
    exact (fresh.collect w).publish time
  · intro s label next step fits
    have kept := MainStep.collector step
    cases seen : label.collector? with
    | none =>
        rw [seen] at kept
        rw [kept]
        exact fits
    | some taken =>
        rw [seen] at kept
        exact CollectorStep.fits kept fits

/-! ## The highlight stays on a row -/

/-- What the keys do to the highlight and the view. -/
inductive Ui.Move where
  | up
  | down
  | pageUp
  | pageDown
  | view (mode : ViewMode)

def Ui.Move.apply : Ui.Move → Ui → Ui
  | .up, ui => ui.selectPrevious
  | .down, ui => ui.selectNext
  | .pageUp, ui => ui.pageUp
  | .pageDown, ui => ui.pageDown
  | .view mode, ui => ui.setViewMode mode

namespace Ui

def moved (ui : Ui) (moves : List Move) : Ui := moves.foldl (fun ui move => move.apply ui) ui

theorem Move.apply_displayedPids (move : Move) (ui : Ui) :
    (move.apply ui).displayedPids = ui.displayedPids := by
  cases move <;> simp only [apply, selectPrevious, selectNext, Ui.pageUp, Ui.pageDown] <;>
    (try split) <;> rfl

theorem Move.apply_onRow (move : Move) {ui : Ui} (onRow : ui.OnRow) : (move.apply ui).OnRow := by
  unfold OnRow at *
  rw [move.apply_displayedPids]
  intro some
  have inside := onRow some
  cases move with
  | up =>
      simp only [apply, selectPrevious]
      split
      · exact (Nat.sub_le _ _).trans_lt inside
      · exact inside
  | down =>
      simp only [apply, selectNext]
      split
      · dsimp only
        omega
      · exact inside
  | pageUp =>
      simp only [apply, Ui.pageUp]
      split
      · exact (Nat.sub_le _ _).trans_lt inside
      · exact some
  | pageDown =>
      simp only [apply, Ui.pageDown, if_pos some]
      omega
  | view mode => exact inside

theorem moved_onRow (moves : List Move) {ui : Ui} (onRow : ui.OnRow) :
    (ui.moved moves).OnRow ∧ (ui.moved moves).displayedPids = ui.displayedPids := by
  induction moves generalizing ui with
  | nil => exact ⟨onRow, rfl⟩
  | cons move moves ih =>
      obtain ⟨still, same⟩ := ih (move.apply_onRow onRow)
      exact ⟨still, same.trans (move.apply_displayedPids ui)⟩

theorem drawProcessList_onRow (mem : DrawMemory) {ui : Ui} (m : ProcessMonitor)
    (onRow : ui.OnRow) : (ui.drawProcessList mem m).1.OnRow := by
  rcases drawProcessList_cases mem ui m with failed | built
  · obtain ⟨capacity, drawn⟩ := failed
    rw [drawn]
    exact onRow
  · obtain ⟨_, _, _, _, drawn⟩ := built
    rw [drawn, scrollTo_eq]
    exact follow_onRow _ _

theorem draw_onRow (mem : DrawMemory) (width height : Int) {ui : Ui} (sys : SystemMonitor)
    (m : ProcessMonitor) (onRow : ui.OnRow) : (ui.draw mem width height sys m).1.OnRow := by
  have sized : ({ ui with termWidth := width, termHeight := height } : Ui).OnRow := onRow
  unfold draw drawContent
  cases view : ui.viewMode with
  | processList => simpa only [view] using drawProcessList_onRow mem m sized
  | _ => exact onRow

end Ui

theorem MainLoop.runCommand_onRow (s : MainLoop) (command : Command) (onRow : s.ui.OnRow) :
    (s.runCommand command).ui.OnRow := by
  cases command with
  | up => exact Ui.Move.apply_onRow .up onRow
  | down => exact Ui.Move.apply_onRow .down onRow
  | pageUp => exact Ui.Move.apply_onRow .pageUp onRow
  | pageDown => exact Ui.Move.apply_onRow .pageDown onRow
  | enter | signal _ | resume =>
      simp only [runCommand]
      repeat' split
      all_goals exact onRow
  | _ => exact onRow

theorem MainStep.onRow {s next : MainLoop} {label : MainLabel} (step : MainStep s label next)
    (onRow : s.ui.OnRow) : next.ui.OnRow := by
  cases step with
  | key there =>
      unfold MainLoop.handleKey
      split
      · exact onRow
      · exact MainLoop.runCommand_onRow _ _ onRow
  | returned there step => cases ‹ApiCall› <;> exact onRow
  | looked there step => cases ‹Option Bytes› <;> exact onRow
  | confirm there =>
      unfold MainLoop.afterConfirm
      split <;> exact onRow
  | compare there =>
      unfold MainLoop.compareGenerations
      split <;> exact onRow
  | frame there due => exact Ui.draw_onRow _ _ _ s.col.sys s.col.proc onRow
  | _ => exact onRow

theorem main_onRow {s : MainLoop} (reachable : mainSystem.Reachable s) : s.ui.OnRow := by
  apply reachable.invariant (P := fun s => s.ui.OnRow)
  · rintro _ ⟨_, _, _, _, _, _, _, _, _, rfl⟩ some
    cases some
  · intro s label next step
    exact MainStep.onRow step

/-- A list draw that is not out of memory, seen from any UI state and sample: the rows
    are as many as the count and the arrays hold them, the highlight is on a row, and the
    window, where it has one, is around the highlight. -/
structure Ui.InWindow (drawn : Ui × Content) (m : ProcessMonitor) (height : Int) : Prop where
  displayed : drawn.1.displayedPids.length = m.count
  sortedRoom : m.count ≤ drawn.1.sortedCapacity
  displayedRoom : m.count ≤ drawn.1.displayedCapacity
  selected : 0 < m.count → drawn.1.selectedIndex < m.count
  window : 0 < m.count → 9 < height →
    drawn.1.scrollOffset ≤ drawn.1.selectedIndex ∧
      drawn.1.selectedIndex < drawn.1.scrollOffset + min (height - 9).toNat m.count
  highlighted : 0 < m.count → 9 < height →
    ∃ rows p, drawn.2.listRows = some rows ∧ (p, drawn.1.selectedIndex) ∈ rows

/-- Every row of the table that is in the window is printed. -/
theorem row_shown {table : List ProcessInfo} {scroll visible i : Nat} (above : scroll ≤ i)
    (below : i < scroll + visible) (inside : i < table.length) :
    ∃ p, (p, i) ∈ ((table.drop scroll).take visible).zipIdx scroll := by
  refine ⟨table[i], List.mk_mem_zipIdx_iff_le_and_getElem?_sub.mpr ⟨above, ?_⟩⟩
  rw [List.getElem?_take_of_lt (by omega), List.getElem?_drop, Nat.add_sub_cancel' above]
  exact List.getElem?_eq_getElem inside

theorem Ui.drawProcessList_inWindow (mem : DrawMemory) (ui : Ui) {m : ProcessMonitor}
    (fits : m.Fits) (built : (ui.drawProcessList mem m).2 ≠ .outOfMemory) :
    Ui.InWindow (ui.drawProcessList mem m) m ui.termHeight := by
  rcases drawProcessList_cases mem ui m with failed | built
  · obtain ⟨capacity, drawn⟩ := failed
    rw [drawn] at built
    exact absurd rfl built
  · obtain ⟨sortedCapacity, displayedCapacity, sortedRoom, displayedRoom, drawn⟩ := built
    have length : (qsort compareByCpu m.sample).length = m.count := by
      rw [length_qsort, fits.length_sample]
    have rows : (ui.withRows sortedCapacity displayedCapacity m).displayedPids.length =
        m.count := by
      rw [withRows, List.length_map, length]
    have onRow := follow_onRow (ui.withRows sortedCapacity displayedCapacity m) ui.selectedPid
    rw [OnRow, follow_displayedPids, rows] at onRow
    have window (some : 0 < m.count) (high : 9 < ui.termHeight) :=
      scrollTo_window ((ui.withRows sortedCapacity displayedCapacity m).follow ui.selectedPid)
        (show 0 < min (ui.termHeight - 9).toNat m.count by omega)
    rw [drawn]
    constructor
    · simpa using rows
    · simpa [withRows] using sortedRoom
    · simpa [withRows] using displayedRoom
    · simpa using onRow
    · simpa using window
    · intro some high
      obtain ⟨above, below⟩ := window some high
      have inside := onRow some
      rw [← length] at inside
      obtain ⟨p, shown⟩ := row_shown above below inside
      rw [← scrollTo_selectedIndex _ (min (ui.termHeight - 9).toNat m.count)] at shown
      exact ⟨_, p, rfl, shown⟩

/-- From any UI state, any sample and any height the draw stays inside its arrays and no
    `size_t` of it wraps; unless it is out of memory it ends with the highlight on a row
    and in the window, and no keys before the next draw take it off the rows. It is on a
    row in every state of the program, and the sample always fits its block. -/
theorem list_draw_in_window :
    (∀ s, mainSystem.Reachable s → s.col.proc.Fits ∧ s.ui.OnRow) ∧
      ∀ (mem : DrawMemory) (ui : Ui) (m : ProcessMonitor), m.Fits →
        let drawn := ui.drawProcessList mem m
        ui.drawListChecked mem m = some (drawn.1, drawn.2.listRows) ∧
          (drawn.2 ≠ .outOfMemory → Ui.InWindow drawn m ui.termHeight ∧
            ∀ moves, (drawn.1.moved moves).OnRow ∧
              (drawn.1.moved moves).displayedPids.length = m.count) := by
  refine ⟨fun s reachable => ⟨main_fits reachable, main_onRow reachable⟩, ?_⟩
  intro mem ui m fits drawn
  refine ⟨Ui.drawListChecked_eq mem ui fits.inside, fun built => ?_⟩
  have around := Ui.drawProcessList_inWindow mem ui fits built
  refine ⟨around, fun moves => ?_⟩
  have onRow : drawn.1.OnRow := by
    unfold Ui.OnRow
    rw [around.displayed]
    exact around.selected
  obtain ⟨still, same⟩ := Ui.moved_onRow moves onRow
  exact ⟨still, same ▸ around.displayed⟩

/-- A redraw at the wait for a key, on a terminal with room for one row. -/
theorem list_draw_in_window_example :
    mainSystem.Reachable exampleInput ∧ exampleInput.ui.OnRow ∧
      let ui := { exampleInput.ui with termHeight := 10, selectedIndex := 1 }
      let drawn := ui.drawProcessList ⟨true, true, ⟨true, none⟩⟩ exampleInput.col.proc
      Ui.InWindow drawn exampleInput.col.proc 10 ∧
        drawn.2.listRows.map (fun rows => rows.map fun row => (row.1.pid, row.2)) =
          some [(12, 1)] := by
  have reachable : mainSystem.Reachable exampleInput := ⟨_, example_painted.append example_input⟩
  obtain ⟨fits, onRow⟩ := list_draw_in_window.1 exampleInput reachable
  let ui : Ui := { exampleInput.ui with termHeight := 10, selectedIndex := 1 }
  have drawn := list_draw_in_window.2 ⟨true, true, ⟨true, none⟩⟩ ui exampleInput.col.proc fits
  have rows : (ui.drawProcessList ⟨true, true, ⟨true, none⟩⟩ exampleInput.col.proc).2.listRows.map
      (fun rows => rows.map fun row => (row.1.pid, row.2)) = some [(12, 1)] := by
    decide +kernel
  refine ⟨reachable, onRow, (drawn.2 fun full => ?_).1, rows⟩
  rw [full] at rows
  cases rows

end KernelMonitor
