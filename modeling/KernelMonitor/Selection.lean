import KernelMonitor.SignalTargets

/-! # The selection follows its process

The highlight is a row number into a table that only a list frame rebuilds. What ties
it to a process is the search for the old PID in the new table, so between list frames
the table and the row may be as old as they like.
-/

namespace KernelMonitor

open Library

/-- The keys that move the highlight. -/
def Command.navigates : Command → Bool
  | .up | .down | .pageUp | .pageDown => true
  | _ => false

/-- A key for one of the commands that move the highlight. -/
def MainLabel.Navigates (label : MainLabel) : Prop :=
  ∃ ch command, label = .key ch ∧ commandOf ch = some command ∧ command.navigates = true

/-! ## One draw -/

theorem Ui.scrollTo_selectedPid (ui : Ui) (visibleCount : Nat) :
    (ui.scrollTo visibleCount).selectedPid = ui.selectedPid := by
  unfold Ui.scrollTo
  dsimp only
  split <;> split <;> rfl

/-- The search finds the PID wherever the sort put it, and the clamp leaves it there. -/
theorem Ui.follow_selectedPid {ui : Ui} {pid : Int} (positive : 0 < pid)
    (present : pid ∈ ui.displayedPids) : (ui.follow pid).selectedPid = pid := by
  obtain ⟨i, found⟩ := Option.isSome_iff_exists.mp (List.isSome_idxOf?.mpr present)
  obtain ⟨inside, there, _⟩ := List.idxOf?_eq_some_iff.mp found
  have unclamped : ¬ (0 < ui.displayedPids.length ∧ ui.displayedPids.length ≤ i) := by omega
  simp only [Ui.follow, positive, if_true, found, unclamped, if_false]
  rw [Ui.selectedPid, List.getElem?_eq_getElem inside, Option.getD_some, there]

/-- A draw keeps the selected PID, unless it builds a list without it. -/
theorem Ui.draw_selectedPid (mem : DrawMemory) (width height : Int) {ui : Ui}
    (sys : SystemMonitor) (m : ProcessMonitor) (selected : 0 < ui.selectedPid) :
    let drawn := ui.draw mem width height sys m
    drawn.1.selectedPid = ui.selectedPid ∨
      (MainLabel.frame drawn.2).listed? ≠ none ∧
        ui.selectedPid ∉ m.sample.map ProcessInfo.pid := by
  unfold Ui.draw Ui.drawContent MainLabel.listed?
  cases view : ui.viewMode with
  | processList =>
      simp only [Ui.drawProcessList]
      cases reserveRows mem.sorted ui.sortedCapacity m.count with
      | none => exact .inl rfl
      | some sortedCapacity =>
          dsimp only
          cases reserveRows mem.displayed ui.displayedCapacity m.count with
          | none => exact .inl rfl
          | some displayedCapacity =>
              by_cases present : ui.selectedPid ∈ m.sample.map ProcessInfo.pid
              · left
                dsimp only
                rw [Ui.scrollTo_selectedPid]
                apply Ui.follow_selectedPid selected
                exact ((qsort_perm m.sample).map ProcessInfo.pid).mem_iff.mpr present
              · exact .inr ⟨by simp, present⟩
  | processDetail => exact .inl rfl
  | processTree => exact .inl rfl
  | events => exact .inl rfl

/-! ## Runs -/

theorem MainLoop.runCommand_selectedPid (s : MainLoop) {command : Command}
    (still : command.navigates = false) :
    (s.runCommand command).ui.selectedPid = s.ui.selectedPid := by
  cases command with
  | up | down | pageUp | pageDown => cases still
  | enter | signal _ | resume =>
      simp only [runCommand]
      repeat' split
      all_goals rfl
  | _ => rfl

theorem MainLoop.handleKey_selectedPid (s : MainLoop) {ch : Int}
    (still : ¬ (MainLabel.key ch).Navigates) :
    (s.handleKey ch).ui.selectedPid = s.ui.selectedPid := by
  unfold handleKey
  cases asked : commandOf ch with
  | none => rfl
  | some command =>
      apply runCommand_selectedPid { s with needsRedraw := true }
      by_contra moves
      exact still ⟨ch, command, rfl, asked, by simpa using moves⟩

/-- The rows of a list frame are the processes of the sample. -/
theorem MainStep.listed_perm {s next : MainLoop} {label : MainLabel} {rows : List Int}
    (step : MainStep s label next) (listed : label.listed? = some rows) :
    rows.Perm (s.col.proc.sample.map ProcessInfo.pid) := by
  cases step with
  | frame there due =>
      rename_i mem width height
      rcases Ui.draw_listed mem width height s.ui s.col.sys s.col.proc with built | built
      · rw [built.1] at listed
        cases listed
      · obtain ⟨shown, rowsOf⟩ := built
        obtain rfl := Option.some.inj (shown.symm.trans listed)
        rw [rowsOf]
        exact (qsort_perm _).map _
  | _ => cases listed

/-- What one step can do to the selected PID. -/
theorem MainStep.selectedPid {s next : MainLoop} {label : MainLabel}
    (step : MainStep s label next) (selected : 0 < s.ui.selectedPid) :
    next.ui.selectedPid = s.ui.selectedPid ∨ label.Navigates ∨
      label.listed? ≠ none ∧ s.ui.selectedPid ∉ s.col.proc.sample.map ProcessInfo.pid := by
  cases step with
  | key there =>
      rename_i ch
      by_cases moves : (MainLabel.key ch).Navigates
      · exact .inr (.inl moves)
      · exact .inl (s.handleKey_selectedPid moves)
  | returned there step => cases ‹ApiCall› <;> exact .inl rfl
  | looked there step => cases ‹Option Bytes› <;> exact .inl rfl
  | confirm there =>
      left
      simp only [MainLoop.afterConfirm]
      split <;> rfl
  | compare there =>
      left
      simp only [MainLoop.compareGenerations]
      split <;> rfl
  | frame there due =>
      rename_i mem width height
      rcases Ui.draw_selectedPid mem width height s.col.sys s.col.proc selected with kept | lost
      · exact .inl kept
      · exact .inr (.inr lost)
  | _ => exact .inl rfl

/-- Once a process is selected, a step changes the selected PID only if it reads a key
    that moves the highlight, or draws a list of a sample without that PID. A list
    drawn from a sample with it leaves it selected, wherever its row went; so does any
    run whose list frames all show it and whose keys move no highlight. -/
theorem selection_follows {s : MainLoop} (selected : 0 < s.ui.selectedPid) :
    (∀ label next, mainSystem.Step s label next →
      next.ui.selectedPid = s.ui.selectedPid ∨ label.Navigates ∨
        label.listed? ≠ none ∧ s.ui.selectedPid ∉ s.col.proc.sample.map ProcessInfo.pid) ∧
      (∀ label next rows, mainSystem.Step s label next → label.listed? = some rows →
        rows.Perm (s.col.proc.sample.map ProcessInfo.pid) ∧
          (s.ui.selectedPid ∈ s.col.proc.sample.map ProcessInfo.pid →
            next.ui.selectedPid = s.ui.selectedPid)) ∧
      ∀ after later, mainSystem.Run s after later → (∀ label ∈ after, ¬ label.Navigates) →
        (∀ label ∈ after, ∀ rows, label.listed? = some rows → s.ui.selectedPid ∈ rows) →
          later.ui.selectedPid = s.ui.selectedPid := by
  refine ⟨fun label next step => MainStep.selectedPid step selected, ?_, ?_⟩
  · intro label next rows step listed
    refine ⟨MainStep.listed_perm step listed, fun present => ?_⟩
    rcases MainStep.selectedPid step selected with kept | ⟨ch, _, rfl, _⟩ | lost
    · exact kept
    · cases listed
    · exact absurd present lost.2
  · intro after later run still shown
    refine run.keeps_along (P := fun t => t.ui.selectedPid = s.ui.selectedPid) ?_
      (fun label member => And.intro (still label member) (shown label member)) rfl
    intro t label next step allowed same
    obtain ⟨still, shown⟩ := allowed
    rw [← same] at shown selected
    rcases MainStep.selectedPid step selected with kept | moves | lost
    · exact kept.trans same
    · exact absurd moves still
    · obtain ⟨rows, listed⟩ := Option.ne_none_iff_exists'.mp lost.1
      exact absurd ((MainStep.listed_perm step listed).mem_iff.mp (shown rows listed)) lost.2

/-! T shows the tree; the process selected before stays selected behind it. -/

/-- The end of an iteration that has something to draw. -/
theorem redraw_frame {s : MainLoop} (there : s.main = .redraw) (free : s.col.lock = .free)
    (due : s.needsRedraw = true) (mem : DrawMemory) (width height : Int) :
    ∃ later, mainSystem.Run s
      [.lock, .compare, .frame (s.ui.draw mem width height s.col.sys s.col.proc).2] later := by
  let held : MainLoop := { s with col := { s.col with lock := .main }, main := .comparing }
  have lock : MainStep s .lock held := .lock (by rw [there]; rfl) (.acquire free)
  have compare : MainStep held .compare held.compareGenerations := .compare rfl
  unfold MainLoop.compareGenerations at compare
  split at compare
  · exact ⟨_, .cons lock <| .cons compare <| .single (.frame rfl rfl)⟩
  · exact ⟨_, .cons lock <| .cons compare <| .single (.frame rfl due)⟩

/-- An iteration whose key asks for a redraw, from one wait for a key to the next. -/
theorem iteration {s : MainLoop} {ch : Int} {ui : Ui} (there : s.main = .input)
    (free : s.col.lock = .free) (running : s.running = true)
    (fresh : s.col.generation = s.drawnGeneration)
    (handled : s.handleKey ch = { s with ui := ui, needsRedraw := true, main := .redraw })
    (mem : DrawMemory) (width height : Int) :
    let drawn := ui.draw mem width height s.col.sys s.col.proc
    mainSystem.Run s [.key ch, .lock, .compare, .frame drawn.2, .unlock, .test]
      { s with ui := drawn.1, needsRedraw := false, main := .input } := by
  intro drawn
  let asked : MainLoop := { s with ui := ui, needsRedraw := true, main := .redraw }
  let held : MainLoop := { asked with col := { s.col with lock := .main }, main := .comparing }
  let painting : MainLoop := { held with main := .painting }
  let painted : MainLoop := { painting with ui := drawn.1, needsRedraw := false, main := .painted }
  have key : MainStep s (.key ch) (s.handleKey ch) := .key there
  rw [handled] at key
  have lock : MainStep asked .lock held := .lock rfl (.acquire free)
  have compare : MainStep held .compare painting := by
    have step : MainStep held .compare held.compareGenerations := .compare rfl
    rwa [MainLoop.compareGenerations, if_neg (not_not.mpr fresh)] at step
  have frame : MainStep painting (.frame drawn.2) painted := .frame rfl rfl
  have ended := next_input (s := painted) rfl rfl running
  have same : { painted.col with lock := .free } = s.col := by
    rw [← free]
  rw [same] at ended
  exact .cons key <| .cons lock <| .cons compare <| .cons frame ended

theorem Ui.draw_tree_listed (mem : DrawMemory) (width height : Int) {ui : Ui}
    (sys : SystemMonitor) (m : ProcessMonitor) (view : ui.viewMode = .processTree) :
    (MainLabel.frame (ui.draw mem width height sys m).2).listed? = none := by
  simp only [Ui.draw, Ui.drawContent, view, Ui.drawProcessTree, MainLabel.listed?]
  cases processTreeBuild mem.tree m <;> rfl

theorem MainLoop.handleKey_down (s : MainLoop) :
    s.handleKey 258 = { s with
      ui := s.ui.selectNext, needsRedraw := true, main := .redraw } := rfl

theorem MainLoop.handleKey_resize (s : MainLoop) :
    s.handleKey 410 = { s with needsRedraw := true, main := .redraw } := rfl

theorem MainLoop.handleKey_tree (s : MainLoop) :
    s.handleKey 116 = { s with
      ui := s.ui.setViewMode .processTree, needsRedraw := true, main := .redraw } := rfl

theorem selection_follows_example :
    exampleInput.ui.selectedPid = 3 ∧
      ∃ shown later, mainSystem.Run exampleInput [.key 116, .lock, .compare, .frame shown] later ∧
        shown.viewMode = .processTree ∧ later.ui.selectedPid = 3 := by
  have selected : exampleInput.ui.selectedPid = 3 := by decide +kernel
  have key : MainStep exampleInput (.key 116) (exampleInput.handleKey 116) := .key rfl
  rw [MainLoop.handleKey_tree] at key
  obtain ⟨later, rest⟩ := redraw_frame (s := { exampleInput with
    ui := exampleInput.ui.setViewMode .processTree, needsRedraw := true, main := .redraw })
    rfl rfl rfl ⟨true, true, ⟨true, none⟩⟩ 100 40
  have run := rest.cons key
  refine ⟨selected, _, later, run, rfl, ?_⟩
  obtain ⟨_, _, kept⟩ := selection_follows (s := exampleInput) (by rw [selected]; decide)
  rw [← selected]
  refine kept _ _ run (fun label member moves => ?_) fun label member rows listed => ?_
  · obtain ⟨ch, command, rfl, asked, moves⟩ := moves
    obtain rfl : ch = 116 := by simpa using member
    cases asked
    cases moves
  · simp only [List.mem_cons, List.not_mem_nil, or_false] at member
    rcases member with rfl | rfl | rfl | rfl
    · cases listed
    · cases listed
    · cases listed
    · rw [Ui.draw_tree_listed _ _ _ _ _ rfl] at listed
      cases listed

end KernelMonitor
