import KernelMonitor.ProcessTree
import KernelMonitor.SystemMonitor

/-! # The user interface

Model of `src/ui/ui.c` without ncurses. A frame is what the four windows are told to
show: the figures, the rows and the messages, before they are laid out as text.
-/

namespace KernelMonitor

open Library

def statusMsgMax : Nat := 256

/-- `km_view_mode` -/
inductive ViewMode where
  | processList
  | processDetail
  | processTree
  | events
  deriving DecidableEq, Repr

/-- `km_ui`. The shown PIDs are `displayed_pids[0..displayed_count)`; the scratch of
    the sort is rebuilt by every draw that uses it. -/
structure Ui where
  viewMode : ViewMode
  selectedIndex : Nat
  scrollOffset : Nat
  displayedPids : List Int
  displayedCapacity : Nat
  sortedCapacity : Nat
  statusMessage : Bytes
  statusIsError : Bool
  termWidth : Int
  termHeight : Int
  deriving DecidableEq, Repr

/-- `km_ui_init_state`, and the size `km_ui_initialize` finds. -/
def Ui.init (width height : Int) : Ui where
  viewMode := .processList
  selectedIndex := 0
  scrollOffset := 0
  displayedPids := []
  displayedCapacity := 0
  sortedCapacity := 0
  statusMessage := []
  statusIsError := false
  termWidth := width
  termHeight := height

namespace Ui

/-- `km_ui_selected_pid` -/
def selectedPid (ui : Ui) : Int := (ui.displayedPids[ui.selectedIndex]?).getD (-1)

/-- `km_ui_set_view_mode` -/
def setViewMode (ui : Ui) (mode : ViewMode) : Ui := { ui with viewMode := mode, scrollOffset := 0 }

/-- `km_ui_select_next` -/
def selectNext (ui : Ui) : Ui :=
  if 0 < ui.displayedPids.length ∧ ui.selectedIndex < ui.displayedPids.length - 1 then
    { ui with selectedIndex := ui.selectedIndex + 1 }
  else ui

/-- `km_ui_select_previous` -/
def selectPrevious (ui : Ui) : Ui :=
  if 0 < ui.selectedIndex then { ui with selectedIndex := ui.selectedIndex - 1 } else ui

/-- `km_ui_page_up` -/
def pageUp (ui : Ui) : Ui :=
  if 10 ≤ ui.selectedIndex then { ui with selectedIndex := ui.selectedIndex - 10 }
  else { ui with selectedIndex := 0 }

/-- `km_ui_page_down` -/
def pageDown (ui : Ui) : Ui :=
  if 0 < ui.displayedPids.length then
    { ui with selectedIndex := min (ui.selectedIndex + 10) (ui.displayedPids.length - 1) }
  else ui

/-- `km_ui_set_status` -/
def setStatus (ui : Ui) (message : Bytes) (isError : Bool) : Ui :=
  { ui with statusMessage := snprintf statusMsgMax message, statusIsError := isError }

/-- `km_ui_confirm`, from whether the window could be made and the key it read. A
    terminal too small for the dialog counts as a refusal. -/
def confirm (ui : Ui) (opened : Bool) (ch : Int) : Bool :=
  let width := if ui.termWidth - 4 < 60 then ui.termWidth - 4 else 60
  if width < 20 ∨ ui.termHeight < 7 + 2 then false
  else if !opened then false
  else ch = 121 ∨ ch = 89

end Ui

/-! ## Drawing -/

/-- The answers of the allocator during one draw. -/
structure DrawMemory where
  sorted : Bool
  displayed : Bool
  tree : TreeMemory

/-- `while (new_cap < needed) new_cap *= 2` -/
def doubleUntil (needed cap : Nat) : Nat :=
  if cap < needed ∧ 0 < cap then doubleUntil needed (cap * 2) else cap
termination_by needed - cap
decreasing_by omega

/-- `reserve_displayed` and `reserve_sorted`: the capacity afterwards; `none` is
    their `false`. -/
def reserveRows (grows : Bool) (cap needed : Nat) : Option Nat :=
  if cap < needed then
    if grows then some (doubleUntil needed (if cap = 0 then 512 else cap)) else none
  else some cap

/-- `compare_by_cpu` -/
def compareByCpu (a b : ProcessInfo) : Int :=
  if a.cpuPercent > b.cpuPercent then -1
  else if a.cpuPercent < b.cpuPercent then 1
  else if a.pid < b.pid then -1
  else if a.pid > b.pid then 1 else 0

/-- What the content window shows. -/
inductive Content where
  | outOfMemory
  /-- The whole table, its selected row, and the part of it in the window. -/
  | processList (table : List ProcessInfo) (selected scroll visible : Nat)
  | noProcessSelected
  | processGone
  | processDetail (info : ProcessInfo)
  | processTree (tree : ProcessTree)
  /-- Newest first. -/
  | events (shown : List Event)

/-- What `km_ui_draw` puts on the screen. -/
structure Frame where
  width : Int
  height : Int
  system : SystemMonitor
  scanMs : Option ℚ
  viewMode : ViewMode
  content : Content
  statusMessage : Bytes
  statusIsError : Bool

namespace Ui

/-- The highlight follows its process; where that is gone it stays on a row. -/
def follow (ui : Ui) (previouslySelected : Int) : Ui :=
  let ui :=
    if 0 < previouslySelected then
      match ui.displayedPids.idxOf? previouslySelected with
      | some i => { ui with selectedIndex := i }
      | none => ui
    else ui
  if 0 < ui.displayedPids.length ∧ ui.displayedPids.length ≤ ui.selectedIndex then
    { ui with selectedIndex := ui.displayedPids.length - 1 }
  else ui

/-- Scrolling that keeps the highlight in the window. -/
def scrollTo (ui : Ui) (visibleCount : Nat) : Ui :=
  let ui :=
    if ui.scrollOffset + visibleCount ≤ ui.selectedIndex then
      { ui with scrollOffset := ui.selectedIndex - visibleCount + 1 }
    else ui
  if ui.selectedIndex < ui.scrollOffset then { ui with scrollOffset := ui.selectedIndex } else ui

/-- `draw_process_list` -/
def drawProcessList (mem : DrawMemory) (ui : Ui) (m : ProcessMonitor) : Ui × Content :=
  match reserveRows mem.sorted ui.sortedCapacity m.count with
  | none => (ui, .outOfMemory)
  | some sortedCapacity =>
      let ui := { ui with sortedCapacity := sortedCapacity }
      match reserveRows mem.displayed ui.displayedCapacity m.count with
      | none => (ui, .outOfMemory)
      | some displayedCapacity =>
          let previouslySelected := ui.selectedPid
          let table := qsort compareByCpu m.sample
          let ui := { ui with
            displayedCapacity := displayedCapacity
            displayedPids := table.map ProcessInfo.pid }
          let ui := ui.follow previouslySelected
          let visibleCount := min (ui.termHeight - 9).toNat m.count
          let ui := ui.scrollTo visibleCount
          (ui, .processList table ui.selectedIndex ui.scrollOffset visibleCount)

/-- `draw_process_detail` -/
def drawProcessDetail (ui : Ui) (m : ProcessMonitor) : Content :=
  match ui.displayedPids[ui.selectedIndex]? with
  | none => .noProcessSelected
  | some selectedPid =>
      match m.find selectedPid with
      | none => .processGone
      | some info => .processDetail info

/-- `draw_process_tree` -/
def drawProcessTree (mem : DrawMemory) (m : ProcessMonitor) : Content :=
  match processTreeBuild mem.tree m with
  | none => .outOfMemory
  | some tree => .processTree tree

/-- `draw_events`: rows 2 up to `term_height - 10`. -/
def drawEvents (ui : Ui) (m : ProcessMonitor) : Content :=
  .events ((m.recentEvents 20).reverse.take (ui.termHeight - 12).toNat)

/-- The content window of the current view. -/
def drawContent (mem : DrawMemory) (ui : Ui) (m : ProcessMonitor) : Ui × Content :=
  match ui.viewMode with
  | .processList => drawProcessList mem ui m
  | .processDetail => (ui, drawProcessDetail ui m)
  | .processTree => (ui, drawProcessTree mem m)
  | .events => (ui, drawEvents ui m)

/-- `km_ui_draw` on a terminal of the given size. -/
def draw (mem : DrawMemory) (width height : Int) (ui : Ui) (sys : SystemMonitor)
    (m : ProcessMonitor) : Ui × Frame :=
  let ui := { ui with termWidth := width, termHeight := height }
  let (ui, content) := drawContent mem ui m
  (ui, {
    width := width
    height := height
    system := sys
    scanMs := if 90 ≤ ui.termWidth then some m.lastScanMs else none
    viewMode := ui.viewMode
    content := content
    statusMessage := ui.statusMessage
    statusIsError := ui.statusIsError })

end Ui

/-! ## What a draw reads of the monitor -/

/-- The two states agree on everything the main thread reads. -/
structure SameForMain (before after : ProcessMonitor) : Prop where
  processes : after.processes = before.processes
  count : after.count = before.count
  events : after.events = before.events
  lastScanMs : after.lastScanMs = before.lastScanMs

namespace SameForMain

theorem refl (m : ProcessMonitor) : SameForMain m m := ⟨rfl, rfl, rfl, rfl⟩

theorem trans {a b c : ProcessMonitor} (first : SameForMain a b) (second : SameForMain b c) :
    SameForMain a c where
  processes := second.processes.trans first.processes
  count := second.count.trans first.count
  events := second.events.trans first.events
  lastScanMs := second.lastScanMs.trans first.lastScanMs

variable {before after : ProcessMonitor}

theorem sample (same : SameForMain before after) : after.sample = before.sample := by
  simp only [ProcessMonitor.sample, same.processes, same.count]

theorem find (same : SameForMain before after) (pid : Int) : after.find pid = before.find pid := by
  simp only [ProcessMonitor.find, same.processes, same.count]

theorem tree (same : SameForMain before after) (mem : TreeMemory) :
    processTreeBuild mem after = processTreeBuild mem before := by
  have parents : parentIndex after = parentIndex before := by
    funext proc
    simp only [parentIndex, same.processes, same.count]
  have counting : countChild after = countChild before := by
    funext acc proc
    simp only [countChild, parents]
  have placing : placeChild after = placeChild before := by
    funext starts acc proc
    simp only [placeChild, parents]
  simp only [processTreeBuild, counting, placing, same.sample, same.processes, same.count]

/-- A draw reads nothing else, so its frame and its effect on the UI are the same. -/
theorem draw (same : SameForMain before after) (mem : DrawMemory) (width height : Int) (ui : Ui)
    (sys : SystemMonitor) :
    ui.draw mem width height sys after = ui.draw mem width height sys before := by
  have list (ui : Ui) : ui.drawProcessList mem after = ui.drawProcessList mem before := by
    simp only [Ui.drawProcessList, same.sample, same.count]
  have detail (ui : Ui) : ui.drawProcessDetail after = ui.drawProcessDetail before := by
    simp only [Ui.drawProcessDetail, same.find]
  have events (ui : Ui) : ui.drawEvents after = ui.drawEvents before := by
    simp only [Ui.drawEvents, ProcessMonitor.recentEvents, same.events]
  have content (ui : Ui) : ui.drawContent mem after = ui.drawContent mem before := by
    simp only [Ui.drawContent, list, detail, events, Ui.drawProcessTree, same.tree]
  simp only [Ui.draw, content, same.lastScanMs]

end SameForMain

end KernelMonitor
