import KernelMonitor.ListWindow

/-! # What the list keeps from draw to draw

The scroll offset of the last draw meets another sample, another height or another
highlight. The corrections move the window no further than the highlight needs, so an
offset from a longer list or a lower window can leave rows of this one empty.
-/

namespace KernelMonitor

open Library

/-! ## Rows left empty -/

/-- The table behind a process list. -/
def Content.table : Content → List ProcessInfo
  | .processList table _ _ _ => table
  | _ => []

/-- A list frame prints as many rows as its window and its table allow. -/
def Frame.FillsWindow (shown : Frame) : Prop :=
  ∀ rows, shown.content.listRows = some rows →
    rows.length = min (shown.height - 9).toNat shown.content.table.length

/-- Where the processes all fit, a full window shows them all. -/
theorem Frame.FillsWindow.all {shown : Frame} (fills : shown.FillsWindow)
    (fit : shown.content.table.length ≤ (shown.height - 9).toNat)
    {rows : List (ProcessInfo × Nat)} (printed : shown.content.listRows = some rows) :
    rows.map Prod.fst = shown.content.table := by
  have length := fills rows printed
  rw [min_eq_right fit] at length
  cases content : shown.content with
  | processList table selected scroll visible =>
      simp only [content, Content.listRows, Content.table] at *
      obtain rfl := Option.some.inj printed
      have part : ((table.drop scroll).take visible).Sublist table :=
        (List.take_sublist _ _).trans (List.drop_sublist _ _)
      rw [List.zipIdx_map_fst]
      exact part.eq_of_length (by simpa using length)
  | _ =>
      rw [content] at printed
      cases printed

/-- The row the highlight is about to land on: that of its process, or else the nearest
    to where it was. -/
def Ui.landing (ui : Ui) (m : ProcessMonitor) : Nat :=
  if 0 < ui.selectedPid ∧ ui.selectedPid ∈ m.sample.map ProcessInfo.pid then
    rowsBefore m.sample ui.selectedPid
  else min ui.selectedIndex (m.count - 1)

/-- The old window, or one that begins at the highlight, ends inside the list. -/
def Ui.WindowInside (ui : Ui) (m : ProcessMonitor) (height : Int) : Prop :=
  min ui.scrollOffset (ui.landing m) + min (height - 9).toNat m.count ≤ m.count

theorem Ui.follow_landing (ui : Ui) {m : ProcessMonitor} (fits : m.Fits) (some : 0 < m.count)
    (sortedCapacity displayedCapacity : Nat) :
    ((ui.withRows sortedCapacity displayedCapacity m).follow ui.selectedPid).selectedIndex =
      ui.landing m := by
  have length : ((qsort compareByCpu m.sample).map ProcessInfo.pid).length = m.count := by
    rw [List.length_map, length_qsort, fits.length_sample]
  rw [follow_eq]
  unfold landing sought withRows
  dsimp only
  rw [length, if_pos some]
  by_cases positive : 0 < ui.selectedPid
  · rw [if_pos positive]
    by_cases present : ui.selectedPid ∈ m.sample.map ProcessInfo.pid
    · have found := idxOf?_qsort present
      have inside := (List.idxOf?_eq_some_iff.mp found).1
      rw [if_pos ⟨positive, present⟩, found, Option.getD_some]
      omega
    · have absent : ui.selectedPid ∉ (qsort compareByCpu m.sample).map ProcessInfo.pid := by
        rwa [((qsort_perm m.sample).map ProcessInfo.pid).mem_iff]
      rw [if_neg fun both => present both.2, List.idxOf?_eq_none_iff.mpr absent, Option.getD_none]
  · rw [if_neg positive, if_neg fun both => positive both.1]

theorem Ui.landing_le (ui : Ui) {m : ProcessMonitor} (fits : m.Fits) :
    ui.landing m ≤ m.count - 1 := by
  unfold landing
  split
  · rename_i follows
    have inside := (List.idxOf?_eq_some_iff.mp (idxOf?_qsort follows.2)).1
    rw [List.length_map, length_qsort, fits.length_sample] at inside
    omega
  · exact min_le_right _ _

theorem Ui.list_table {mem : DrawMemory} {ui : Ui} {m : ProcessMonitor}
    (listed : (ui.drawProcessList mem m).2.listRows ≠ none) :
    (ui.drawProcessList mem m).2.table = qsort compareByCpu m.sample := by
  rcases drawProcessList_cases mem ui m with failed | built
  · obtain ⟨capacity, drawn⟩ := failed
    rw [drawn] at listed
    exact absurd rfl listed
  · obtain ⟨_, _, _, _, drawn⟩ := built
    rw [drawn]
    rfl

/-- The rows of a list draw fill its window exactly when the window did not have to stay
    below the end of the list. -/
theorem Ui.list_fills_iff {mem : DrawMemory} {ui : Ui} {m : ProcessMonitor} (fits : m.Fits)
    {rows : List (ProcessInfo × Nat)} (listed : (ui.drawProcessList mem m).2.listRows = some rows) :
    rows.length = min (ui.termHeight - 9).toNat m.count ↔ ui.WindowInside m ui.termHeight := by
  rcases drawProcessList_cases mem ui m with failed | built
  · obtain ⟨capacity, drawn⟩ := failed
    rw [drawn] at listed
    cases listed
  · obtain ⟨sortedCapacity, displayedCapacity, _, _, drawn⟩ := built
    rw [drawn] at listed
    obtain rfl := Option.some.inj listed
    rw [List.length_zipIdx, List.length_take, List.length_drop, length_qsort, fits.length_sample,
      scrollTo_eq]
    dsimp only
    rw [follow_scrollOffset]
    have last := ui.landing_le fits
    unfold WindowInside
    have offset : (ui.withRows sortedCapacity displayedCapacity m).scrollOffset = ui.scrollOffset :=
      rfl
    rcases Nat.eq_zero_or_pos m.count with none | some
    · omega
    · rw [follow_landing ui fits some, offset]
      split <;> omega

/-! ## Frames -/

theorem Ui.draw_list (mem : DrawMemory) (width height : Int) {ui : Ui} (sys : SystemMonitor)
    (m : ProcessMonitor) (view : ui.viewMode = .processList) :
    let sized := { ui with termWidth := width, termHeight := height }
    (ui.draw mem width height sys m).1 = (sized.drawProcessList mem m).1 ∧
      (ui.draw mem width height sys m).2.content = (sized.drawProcessList mem m).2 := by
  simp only [draw, drawContent, view, and_self]

/-- Only the list view prints rows of a list. -/
theorem Ui.draw_listRows {mem : DrawMemory} {width height : Int} {ui : Ui} {sys : SystemMonitor}
    {m : ProcessMonitor} (listed : (ui.draw mem width height sys m).2.content.listRows ≠ none) :
    ui.viewMode = .processList := by
  cases view : ui.viewMode with
  | processList => rfl
  | processDetail =>
      simp only [draw, drawContent, view, drawProcessDetail] at listed
      split at listed
      · exact absurd rfl listed
      · split at listed <;> exact absurd rfl listed
  | processTree =>
      simp only [draw, drawContent, view, drawProcessTree] at listed
      split at listed <;> exact absurd rfl listed
  | events =>
      simp only [draw, drawContent, view] at listed
      exact absurd rfl listed

theorem Ui.draw_fills_iff {mem : DrawMemory} {width height : Int} {ui : Ui} {sys : SystemMonitor}
    {m : ProcessMonitor} (fits : m.Fits)
    (listed : (ui.draw mem width height sys m).2.content.listRows ≠ none) :
    (ui.draw mem width height sys m).2.FillsWindow ↔ ui.WindowInside m height := by
  obtain ⟨_, content⟩ := draw_list mem width height sys m (draw_listRows listed)
  obtain ⟨rows, printed⟩ := Option.ne_none_iff_exists'.mp listed
  have table : (ui.draw mem width height sys m).2.content.table.length = m.count := by
    rw [content] at listed ⊢
    rw [list_table listed, length_qsort, fits.length_sample]
  have fills : (ui.draw mem width height sys m).2.FillsWindow ↔
      rows.length = min (height - 9).toNat m.count := by
    unfold Frame.FillsWindow
    rw [printed, table]
    simp only [Option.some.injEq, forall_eq']
    rfl
  rw [fills]
  rw [content] at printed
  exact list_fills_iff fits printed

/-- The steps whose list frames find the window inside the list. -/
def KeepsInside (s : MainLoop) (label : MainLabel) (_next : MainLoop) : Prop :=
  ∀ shown, label = .frame shown → shown.content.listRows ≠ none →
    s.ui.WindowInside s.col.proc shown.height

theorem MainStep.fills_iff {s next : MainLoop} {shown : Frame} (fits : s.col.proc.Fits)
    (step : MainStep s (.frame shown) next) (listed : shown.content.listRows ≠ none) :
    shown.FillsWindow ↔ s.ui.WindowInside s.col.proc shown.height := by
  cases step with
  | frame there due => exact Ui.draw_fills_iff fits listed

/-- A list frame of the program fills its window exactly when the old window, or one that
    begins at the highlight, ends inside the list. So in a run whose list frames all find
    it so, each of them prints as many rows as fit, and all processes where they fit. -/
theorem list_window_filled_iff (s : MainLoop) :
    (∀ shown next, mainSystem.Reachable s → mainSystem.Step s (.frame shown) next →
      shown.content.listRows ≠ none →
        (shown.FillsWindow ↔ s.ui.WindowInside s.col.proc shown.height)) ∧
      ∀ trace, (mainSystem.restrict KeepsInside).Trace trace s →
        ∀ shown rows, .frame shown ∈ trace → shown.content.listRows = some rows →
          rows.length = min (shown.height - 9).toNat shown.content.table.length ∧
            (shown.content.table.length ≤ (shown.height - 9).toNat →
              rows.map Prod.fst = shown.content.table) := by
  constructor
  · intro shown next reachable step listed
    exact MainStep.fills_iff (main_fits reachable) step listed
  · intro trace history shown rows member printed
    obtain ⟨before, after, rfl⟩ := List.append_of_mem member
    obtain ⟨t, _, earlier, taken, _⟩ := history.around
    obtain ⟨step, inside⟩ := taken
    have listed : shown.content.listRows ≠ none := by
      rw [printed]
      exact Option.some_ne_none rows
    have fits := main_fits ⟨before, earlier.unrestrict⟩
    have fills := (MainStep.fills_iff fits step listed).mpr (inside shown rfl listed)
    exact ⟨fills rows printed, fun fit => fills.all fit printed⟩

/-! Down in a window of one row, and then a window of 31 for the two processes. -/

def exampleLow : Ui × Frame :=
  exampleInput.ui.selectNext.draw ⟨true, true, ⟨true, none⟩⟩ 100 10 exampleSystem exampleSample

def exampleHigh : Ui × Frame :=
  exampleLow.1.draw ⟨true, true, ⟨true, none⟩⟩ 100 40 exampleSystem exampleSample

def exampleLowInput : MainLoop :=
  { exampleInput with ui := exampleLow.1, needsRedraw := false, main := .input }

theorem example_high :
    exampleLowInput.ui.draw ⟨true, true, ⟨true, none⟩⟩ 100 40 exampleLowInput.col.sys
      exampleLowInput.col.proc = exampleHigh := by
  have ui : exampleLowInput.ui = exampleLow.1 := by rw [exampleLowInput]
  have sys : exampleLowInput.col.sys = exampleSystem := by rfl
  have proc : exampleLowInput.col.proc = exampleSample := by rfl
  rw [ui, sys, proc, exampleHigh]

theorem window_left_behind :
    ∃ trace s, mainSystem.Trace trace s ∧ .frame exampleHigh.2 ∈ trace ∧
      exampleHigh.2.content.table.length = 2 ∧ exampleHigh.2.height = 40 ∧
        ¬ exampleHigh.2.FillsWindow := by
  have down := iteration rfl rfl rfl rfl exampleInput.handleKey_down ⟨true, true, ⟨true, none⟩⟩
    100 10
  have resize := iteration (s := exampleLowInput) rfl rfl rfl rfl
    exampleLowInput.handleKey_resize ⟨true, true, ⟨true, none⟩⟩ 100 40
  rw [example_high] at resize
  have history := ((example_painted.append example_input).append down).append resize
  have table : exampleHigh.2.content.table.length = 2 := by decide +kernel
  have height : exampleHigh.2.height = 40 := by decide +kernel
  have printed : exampleHigh.2.content.listRows.map List.length = some 1 := by decide +kernel
  refine ⟨_, _, history, by simp, table, height, fun fills => ?_⟩
  obtain ⟨rows, there, length⟩ := Option.map_eq_some_iff.mp printed
  have full := fills rows there
  rw [table, height, length] at full
  cases full

/-! ## The same sample again -/

/-- A highlight that is on its process stays there. -/
theorem Ui.follow_self {ui : Ui} (distinct : ui.displayedPids.Nodup) (onRow : ui.OnRow) :
    ui.follow ui.selectedPid = ui := by
  have kept : ui.sought ui.selectedPid = ui.selectedIndex := by
    unfold sought
    split
    · rename_i positive
      by_cases inside : ui.selectedIndex < ui.displayedPids.length
      · have pid : ui.selectedPid = ui.displayedPids[ui.selectedIndex] := by
          rw [selectedPid, List.getElem?_eq_getElem inside, Option.getD_some]
        have found : ui.displayedPids.idxOf? ui.selectedPid = some ui.selectedIndex := by
          rw [List.idxOf?_eq_some_iff]
          refine ⟨inside, pid.symm, fun j earlier same => ?_⟩
          have index := (distinct.getElem_inj_iff).mp (same.trans pid)
          omega
        rw [found, Option.getD_some]
      · rw [selectedPid, List.getElem?_eq_none (by omega)] at positive
        cases positive
    · rfl
  have clamped : (if 0 < ui.displayedPids.length then
      min ui.selectedIndex (ui.displayedPids.length - 1) else ui.selectedIndex) =
      ui.selectedIndex := by
    split
    · rename_i some
      have inside := onRow some
      omega
    · rfl
  rw [follow_eq, kept, clamped]

theorem Ui.scrollTo_twice (ui : Ui) (visibleCount : Nat) :
    ((ui.scrollTo visibleCount).scrollTo visibleCount).scrollOffset =
      (ui.scrollTo visibleCount).scrollOffset := by
  simp only [scrollTo_eq]
  split <;> split <;> omega

/-- The UI shows the table of a sample, and neither highlight nor window has to move. -/
structure Ui.Settled (ui : Ui) (m : ProcessMonitor) (height : Int) : Prop where
  rows : ui.displayedPids = (qsort compareByCpu m.sample).map ProcessInfo.pid
  onRow : ui.OnRow
  window : (ui.scrollTo (min (height - 9).toNat m.count)).scrollOffset = ui.scrollOffset

theorem Ui.drawProcessList_settled {mem : DrawMemory} {ui : Ui} {m : ProcessMonitor}
    (built : (ui.drawProcessList mem m).2 ≠ .outOfMemory) :
    (ui.drawProcessList mem m).1.Settled m ui.termHeight := by
  rcases drawProcessList_cases mem ui m with failed | built'
  · obtain ⟨capacity, drawn⟩ := failed
    rw [drawn] at built
    exact absurd rfl built
  · obtain ⟨sortedCapacity, displayedCapacity, _, _, drawn⟩ := built'
    rw [drawn]
    constructor
    · simp only [scrollTo_displayedPids, follow_displayedPids, withRows]
    · rw [scrollTo_eq]
      exact follow_onRow _ _
    · exact scrollTo_twice _ _

/-- A draw of the sample it shows leaves a settled UI as it is. -/
theorem Ui.Settled.redrawn {ui : Ui} {m : ProcessMonitor} (settled : ui.Settled m ui.termHeight)
    (distinct : (m.sample.map ProcessInfo.pid).Nodup) (mem : DrawMemory) :
    (ui.drawProcessList mem m).1.displayedPids = ui.displayedPids ∧
      (ui.drawProcessList mem m).1.selectedIndex = ui.selectedIndex ∧
      (ui.drawProcessList mem m).1.scrollOffset = ui.scrollOffset := by
  rcases drawProcessList_cases mem ui m with failed | built
  · obtain ⟨capacity, drawn⟩ := failed
    rw [drawn]
    exact ⟨rfl, rfl, rfl⟩
  · obtain ⟨sortedCapacity, displayedCapacity, _, _, drawn⟩ := built
    let grown : Ui :=
      { ui with sortedCapacity := sortedCapacity, displayedCapacity := displayedCapacity }
    have same : ui.withRows sortedCapacity displayedCapacity m = grown := by
      rw [withRows, ← settled.rows]
    have listed : grown.displayedPids.Nodup := by
      apply settled.rows ▸ ((qsort_perm m.sample).map ProcessInfo.pid).nodup_iff.mpr distinct
    have followed : grown.follow ui.selectedPid = grown := follow_self listed settled.onRow
    dsimp only at drawn
    rw [drawn, same, followed]
    refine ⟨scrollTo_displayedPids _ _, scrollTo_selectedIndex _ _, ?_⟩
    have window := settled.window
    rw [scrollTo_eq] at window ⊢
    exact window

theorem Ui.Settled.resized {ui : Ui} {m : ProcessMonitor} {height : Int}
    (settled : ui.Settled m height) (width : Int) :
    ({ ui with termWidth := width, termHeight := height } : Ui).Settled m height := by
  refine ⟨settled.rows, settled.onRow, ?_⟩
  have window := settled.window
  rw [scrollTo_eq] at window ⊢
  exact window

theorem Ui.drawProcessList_viewMode (mem : DrawMemory) (ui : Ui) (m : ProcessMonitor) :
    (ui.drawProcessList mem m).1.viewMode = ui.viewMode := by
  rcases drawProcessList_cases mem ui m with failed | built
  · obtain ⟨capacity, drawn⟩ := failed
    rw [drawn]
  · obtain ⟨_, _, _, _, drawn⟩ := built
    rw [drawn, scrollTo_eq, follow_eq, withRows]

theorem Ui.draw_redrawn {mem : DrawMemory} {width height : Int} {ui : Ui} {sys : SystemMonitor}
    {m : ProcessMonitor} (distinct : (m.sample.map ProcessInfo.pid).Nodup)
    (view : ui.viewMode = .processList)
    (built : (ui.draw mem width height sys m).2.content ≠ .outOfMemory) (mem' : DrawMemory)
    (sys' : SystemMonitor) :
    let first := (ui.draw mem width height sys m).1
    let again := (first.draw mem' width height sys' m).1
    again.displayedPids = first.displayedPids ∧ again.selectedIndex = first.selectedIndex ∧
      again.scrollOffset = first.scrollOffset := by
  obtain ⟨drawn, content⟩ := draw_list mem width height sys m view
  rw [content] at built
  have settled := drawProcessList_settled built
  rw [← drawn] at settled
  have still : (ui.draw mem width height sys m).1.viewMode = .processList := by
    rw [drawn, drawProcessList_viewMode]
    exact view
  intro first again
  obtain ⟨redrawn, _⟩ := draw_list mem' width height sys' m still
  have same := (settled.resized width).redrawn distinct mem'
  rw [← redrawn] at same
  exact same

/-- For distinct PIDs the comparator is a strict total order on the entries, so a list
    draw leaves the one arrangement of the PIDs by CPU and then PID, whichever way `qsort`
    works and from whichever order of the entries. Two samples keep the processes that did
    not change in the same order; and the same sample drawn again at the same size leaves
    rows, highlight and window where they are. -/
theorem list_order_determined {m : ProcessMonitor}
    (distinct : (m.sample.map ProcessInfo.pid).Nodup) :
    IsStrictTotalOrder { p // p ∈ m.sample } (fun a b => compareByCpu a b < 0) ∧
      (∀ (mem : DrawMemory) (ui : Ui), (ui.drawProcessList mem m).2 ≠ .outOfMemory →
        (∀ pids, Arranged m.sample pids ↔ pids = (ui.drawProcessList mem m).1.displayedPids) ∧
          (∀ items result : List ProcessInfo, items.Perm m.sample → result.Perm items →
            result.Pairwise (fun a b => compareByCpu a b ≤ 0) →
              (ui.drawProcessList mem m).1.displayedPids = result.map ProcessInfo.pid) ∧
          ∀ (mem' : DrawMemory) (ui' : Ui) (m' : ProcessMonitor) (changed : Int → Prop)
            [DecidablePred changed], (m'.sample.map ProcessInfo.pid).Nodup →
            (ui'.drawProcessList mem' m').2 ≠ .outOfMemory →
            SameApart changed m.sample m'.sample →
              (ui.drawProcessList mem m).1.displayedPids.filter (fun pid => ¬ changed pid) =
                (ui'.drawProcessList mem' m').1.displayedPids.filter fun pid => ¬ changed pid) ∧
      ∀ (mem mem' : DrawMemory) (width height : Int) (ui : Ui) (sys sys' : SystemMonitor),
        ui.viewMode = .processList →
        (ui.draw mem width height sys m).2.content ≠ .outOfMemory →
          let first := (ui.draw mem width height sys m).1
          let again := (first.draw mem' width height sys' m).1
          again.displayedPids = first.displayedPids ∧
            again.selectedIndex = first.selectedIndex ∧
            again.scrollOffset = first.scrollOffset := by
  refine ⟨?_, ?_, ?_⟩
  · have entry {p q : ProcessInfo} (here : p ∈ m.sample) (there : q ∈ m.sample)
        (same : p.load = q.load) : p = q :=
      List.inj_on_of_nodup_map distinct here there (congrArg Prod.snd same)
    exact {
      trichotomous := fun a b notAbove notBelow => by
        simp only [compareByCpu_neg_iff] at notAbove notBelow
        rcases Above.trichotomy a.1.load b.1.load with above | same | below
        · exact absurd above notAbove
        · exact Subtype.ext (entry a.2 b.2 same)
        · exact absurd below notBelow
      irrefl := fun a above => Above.irrefl _ (compareByCpu_neg_iff.mp above)
      trans := fun a b c first second => by
        rw [compareByCpu_neg_iff] at *
        exact first.trans second }
  · intro mem ui built
    have rows := (Ui.drawProcessList_settled built).rows
    have unique {items result : List ProcessInfo} (shuffled : items.Perm m.sample)
        (sorted : result.Perm items) (ordered : result.Pairwise fun a b => compareByCpu a b ≤ 0) :=
      arranged_iff distinct shuffled sorted ordered
    have drawn := unique (List.Perm.refl _) (qsort_perm _) (compareByCpu_order.qsort_ordered _)
    rw [← rows] at drawn
    refine ⟨drawn, ?_, ?_⟩
    · intro items result shuffled sorted ordered
      rw [← unique shuffled sorted ordered, drawn]
    · intro mem' ui' m' changed _ distinct' built' same
      rw [rows, (Ui.drawProcessList_settled built').rows]
      exact others_in_order distinct distinct' same
  · intro mem mem' width height ui sys sys' view built
    exact Ui.draw_redrawn distinct view built mem' sys'

theorem list_order_determined_example :
    exampleDraw.1.displayedPids = [3, 12] ∧
      (exampleDraw.1.draw ⟨true, true, ⟨true, none⟩⟩ 100 40 exampleSystem
        exampleSample).1.displayedPids = [3, 12] := by
  have distinct : (exampleSample.sample.map ProcessInfo.pid).Nodup := by decide +kernel
  have rows : exampleDraw.1.displayedPids = [3, 12] := by decide +kernel
  have listed : exampleDraw.2.content.listRows.isSome = true := by decide +kernel
  have built : exampleDraw.2.content ≠ .outOfMemory := by
    intro failed
    rw [failed] at listed
    cases listed
  obtain ⟨_, _, again⟩ := list_order_determined distinct
  unfold exampleDraw at built rows ⊢
  have kept := again ⟨true, true, ⟨true, none⟩⟩ ⟨true, true, ⟨true, none⟩⟩ 100 40 exampleMain.ui
    exampleSystem exampleSystem rfl built
  exact ⟨rows, kept.1.trans rows⟩

end KernelMonitor
