import KernelMonitor.MainLoop

/-! # Whom a signal goes to

The target of a key travels through state that is stale on purpose: the table of the
last list frame, the lookup made under the lock, the prompt during which the sample
may be replaced. These are the facts that survive every interleaving on the way.
-/

namespace KernelMonitor

open Library

/-! ## The table on the screen -/

/-- The PIDs of a process-list frame, row by row; none where it ran out of memory or
    another view was drawn. -/
def MainLabel.listed? : MainLabel → Option (List Int)
  | .frame shown =>
      match shown.content with
      | .processList table _ _ _ => some (table.map ProcessInfo.pid)
      | _ => none
  | _ => none

/-- The rows of the last process-list frame that was built. -/
def lastListed (trace : List MainLabel) : List Int :=
  ((trace.filterMap MainLabel.listed?).getLast?).getD []

theorem lastListed_snoc (trace : List MainLabel) (label : MainLabel) :
    lastListed (trace ++ [label]) = label.listed?.getD (lastListed trace) := by
  unfold lastListed
  rw [List.filterMap_append]
  cases listed : label.listed? with
  | none => simp [listed]
  | some rows => simp [listed]

@[simp] theorem Ui.follow_displayedPids (ui : Ui) (pid : Int) :
    (ui.follow pid).displayedPids = ui.displayedPids := by
  unfold Ui.follow
  by_cases positive : 0 < pid
  · simp only [positive, if_true]
    cases ui.displayedPids.idxOf? pid <;> dsimp only <;> split <;> rfl
  · simp only [positive, if_false]
    split <;> rfl

@[simp] theorem Ui.scrollTo_displayedPids (ui : Ui) (visibleCount : Nat) :
    (ui.scrollTo visibleCount).displayedPids = ui.displayedPids := by
  unfold Ui.scrollTo
  dsimp only
  split <;> split <;> rfl

/-- A draw either builds the list, and shows the rows of the sorted sample, or leaves
    the shown PIDs as they were. -/
theorem Ui.draw_listed (mem : DrawMemory) (width height : Int) (ui : Ui) (sys : SystemMonitor)
    (m : ProcessMonitor) :
    let drawn := ui.draw mem width height sys m
    (MainLabel.frame drawn.2).listed? = none ∧ drawn.1.displayedPids = ui.displayedPids ∨
      (MainLabel.frame drawn.2).listed? = some drawn.1.displayedPids ∧
        drawn.1.displayedPids = (qsort compareByCpu m.sample).map ProcessInfo.pid := by
  unfold Ui.draw Ui.drawContent MainLabel.listed?
  cases view : ui.viewMode with
  | processList =>
      simp only [Ui.drawProcessList]
      cases reserveRows mem.sorted ui.sortedCapacity m.count with
      | none => exact .inl ⟨rfl, rfl⟩
      | some sortedCapacity =>
          dsimp only
          cases reserveRows mem.displayed ui.displayedCapacity m.count with
          | none => exact .inl ⟨rfl, rfl⟩
          | some displayedCapacity => exact .inr ⟨by simp, by simp⟩
  | processDetail =>
      left
      simp only [Ui.drawProcessDetail]
      cases ui.displayedPids[ui.selectedIndex]? with
      | none => trivial
      | some pid => dsimp only; cases m.find pid <;> trivial
  | processTree =>
      left
      simp only [Ui.drawProcessTree]
      cases processTreeBuild mem.tree m <;> trivial
  | events => exact .inl ⟨rfl, rfl⟩

/-- Only a list that is really built replaces the shown PIDs, and by its own rows. -/
theorem Ui.draw_displayedPids (mem : DrawMemory) (width height : Int) (ui : Ui)
    (sys : SystemMonitor) (m : ProcessMonitor) :
    (ui.draw mem width height sys m).1.displayedPids =
      (MainLabel.frame (ui.draw mem width height sys m).2).listed?.getD ui.displayedPids := by
  rcases Ui.draw_listed mem width height ui sys m with ⟨none, kept⟩ | ⟨built, _⟩
  · rw [none, kept]
    rfl
  · rw [built]
    rfl

/-- A step shows other PIDs only by drawing them. -/
theorem MainStep.displayedPids {s next : MainLoop} {label : MainLabel}
    (step : MainStep s label next) :
    next.ui.displayedPids = label.listed?.getD s.ui.displayedPids := by
  cases step with
  | key there => exact (s.handleKey_kept _).displayedPids
  | returned there step => cases ‹ApiCall› <;> rfl
  | looked there step => cases ‹Option Bytes› <;> rfl
  | confirm there =>
      simp only [MainLabel.listed?, MainLoop.afterConfirm]
      split <;> rfl
  | compare there =>
      simp only [MainLabel.listed?, MainLoop.compareGenerations]
      split <;> rfl
  | frame there due => exact Ui.draw_displayedPids ..
  | _ => rfl

/-- The shown PIDs are the rows of the last list frame. -/
theorem displayed_lastListed {trace : List MainLabel} {s : MainLoop}
    (history : mainSystem.Trace trace s) : s.ui.displayedPids = lastListed trace := by
  apply history.induct (P := fun trace s => s.ui.displayedPids = lastListed trace)
  · rintro _ ⟨_, _, _, _, _, _, _, _, _, rfl⟩
    rfl
  · intro trace s label next _ same step
    rw [lastListed_snoc, ← same]
    exact MainStep.displayedPids step

/-! ## The way to a signal -/

/-- No key was read. -/
def NoKey (since : List MainLabel) : Prop := ∀ ch, .key ch ∉ since

/-- The trace ends with a key for the command, read in the list view while the
    highlighted row of the last list frame was that of the PID. -/
def Selected (before : List MainLabel) (command : Command) (pid : Int) : Prop :=
  ∃ earlier ch keyed, before = earlier ++ [.key ch] ∧ commandOf ch = some command ∧
    mainSystem.Trace earlier keyed ∧ keyed.ui.viewMode = .processList ∧
    (lastListed earlier)[keyed.ui.selectedIndex]? = some pid ∧ 0 < pid

/-- Since then the PID was looked up in the sample current at that moment. -/
def Looked (before since : List MainLabel) (pid : Int) (name : Bytes) : Prop :=
  ∃ upTo info rest looked, since = upTo ++ .find (some info) :: rest ∧
    mainSystem.Trace (before ++ upTo) looked ∧ info ∈ looked.col.proc.sample ∧
    info.pid = pid ∧ name = snprintf commMax info.name

/-- The user was asked with this message and said yes. -/
def Confirmed (since : List MainLabel) (message : Bytes) : Prop :=
  ∃ ch, .confirm message true ch ∈ since ∧ (ch = 121 ∨ ch = 89)

/-- What must have happened for the main thread to be where it is. -/
def Justified (trace : List MainLabel) : MainPoint → Prop
  | .seeking action pid | .finding action pid =>
      ∃ before since, trace = before ++ since ∧ NoKey since ∧ Selected before (.signal action) pid
  | .found action pid (some name) | .asking action pid name =>
      ∃ before since, trace = before ++ since ∧ NoKey since ∧
        Selected before (.signal action) pid ∧ Looked before since pid name
  | .signalling signal pid =>
      ∃ before since, trace = before ++ since ∧ NoKey since ∧
        (Selected before .resume pid ∧ signal = .sigCont ∨
          ∃ action name, Selected before (.signal action) pid ∧ signal = action.signal ∧
            Looked before since pid name ∧ Confirmed since (confirmMsg action pid name))
  | _ => True

theorem NoKey.snoc {since : List MainLabel} {label : MainLabel} (noKey : NoKey since)
    (other : ∀ ch, label ≠ .key ch) : NoKey (since ++ [label]) := by
  intro ch member
  rcases List.mem_append.mp member with earlier | last
  · exact noKey ch earlier
  · exact other ch (List.mem_singleton.mp last).symm

theorem Looked.snoc {before since : List MainLabel} {pid : Int} {name : Bytes}
    (looked : Looked before since pid name) (label : MainLabel) :
    Looked before (since ++ [label]) pid name := by
  obtain ⟨upTo, info, rest, state, rfl, facts⟩ := looked
  exact ⟨upTo, info, rest ++ [label], state, by simp, facts⟩

theorem Confirmed.snoc {since : List MainLabel} {message : Bytes}
    (confirmed : Confirmed since message) (label : MainLabel) :
    Confirmed (since ++ [label]) message := by
  obtain ⟨ch, member, yes⟩ := confirmed
  exact ⟨ch, List.mem_append_left _ member, yes⟩

/-- The evidence stays good while no other key is read. -/
theorem Justified.snoc {trace : List MainLabel} {point : MainPoint}
    (justified : Justified trace point) (label : MainLabel) (other : ∀ ch, label ≠ .key ch) :
    Justified (trace ++ [label]) point := by
  cases point with
  | seeking action pid | finding action pid =>
      obtain ⟨before, since, rfl, noKey, selected⟩ := justified
      exact ⟨before, since ++ [label], List.append_assoc .., noKey.snoc other, selected⟩
  | found action pid name =>
      cases name with
      | none => trivial
      | some name =>
          obtain ⟨before, since, rfl, noKey, selected, looked⟩ := justified
          exact ⟨before, since ++ [label], List.append_assoc .., noKey.snoc other, selected,
            looked.snoc label⟩
  | asking action pid name =>
      obtain ⟨before, since, rfl, noKey, selected, looked⟩ := justified
      exact ⟨before, since ++ [label], List.append_assoc .., noKey.snoc other, selected,
        looked.snoc label⟩
  | signalling signal pid =>
      obtain ⟨before, since, rfl, noKey, way⟩ := justified
      refine ⟨before, since ++ [label], List.append_assoc .., noKey.snoc other, ?_⟩
      rcases way with resumed | ⟨action, name, selected, same, looked, confirmed⟩
      · exact .inl resumed
      · exact .inr ⟨action, name, selected, same, looked.snoc label, confirmed.snoc label⟩
  | _ => trivial

theorem Ui.selectedPid_row {ui : Ui} (positive : 0 < ui.selectedPid) :
    ui.displayedPids[ui.selectedIndex]? = some ui.selectedPid := by
  unfold Ui.selectedPid at *
  cases row : ui.displayedPids[ui.selectedIndex]? with
  | none => simp [row] at positive
  | some pid => rfl

theorem noKey_nil : NoKey [] := fun _ => List.not_mem_nil

/-- A command leads to a signal only from the list view with a process highlighted. -/
theorem runCommand_justified {before : List MainLabel} {s : MainLoop} {command : Command}
    (selected : s.ui.viewMode = .processList → 0 < s.ui.selectedPid →
      Selected before command s.ui.selectedPid) :
    Justified before (s.runCommand command).main := by
  cases command with
  | signal action =>
      simp only [MainLoop.runCommand]
      split
      · trivial
      · rename_i view
        split
        · trivial
        · exact ⟨before, [], (List.append_nil _).symm, noKey_nil,
            selected (not_not.mp view) (by omega)⟩
  | resume =>
      simp only [MainLoop.runCommand]
      split
      · rename_i ready
        exact ⟨before, [], (List.append_nil _).symm, noKey_nil,
          .inl ⟨selected ready.1 ready.2, rfl⟩⟩
      · trivial
  | enter =>
      simp only [MainLoop.runCommand]
      split <;> trivial
  | _ => trivial

theorem handleKey_justified {trace : List MainLabel} {s : MainLoop} {ch : Int}
    (history : mainSystem.Trace trace s) :
    Justified (trace ++ [.key ch]) (s.handleKey ch).main := by
  unfold MainLoop.handleKey
  cases asked : commandOf ch with
  | none => trivial
  | some command =>
      refine runCommand_justified fun view positive => ?_
      have row := Ui.selectedPid_row positive
      rw [displayed_lastListed history] at row
      exact ⟨trace, ch, s, rfl, asked, history, view, row, positive⟩

theorem Ui.confirm_yes {ui : Ui} {opened : Bool} {ch : Int} (yes : ui.confirm opened ch = true) :
    opened = true ∧ (ch = 121 ∨ ch = 89) := by
  unfold Ui.confirm at yes
  cases opened <;> simp_all

/-- Every step of the program keeps the evidence for where the main thread is. -/
theorem MainStep.justified {trace : List MainLabel} {s next : MainLoop} {label : MainLabel}
    (history : mainSystem.Trace trace s) (justified : Justified trace s.main)
    (step : MainStep s label next) : Justified (trace ++ [label]) next.main := by
  cases step with
  | background own step => exact justified.snoc _ (by simp)
  | interrupt => exact justified.snoc _ (by simp)
  | test there =>
      dsimp only
      split
      · trivial
      · split <;> trivial
  | key there => exact handleKey_justified history
  | lock waiting step =>
      have kept := justified.snoc .lock (by simp)
      cases there : s.main <;> rw [there] at waiting kept <;> cases waiting <;> trivial
  | call there step => trivial
  | returned there step => cases ‹ApiCall› <;> trivial
  | find there =>
      rename_i action pid
      rw [there] at justified
      unfold MainLoop.afterFind
      cases found : s.col.proc.find pid with
      | none => trivial
      | some info =>
          obtain ⟨before, since, rfl, noKey, selected⟩ := justified
          obtain ⟨member, same⟩ := ProcessMonitor.find_sound found
          exact ⟨before, since ++ [.find (some info)], List.append_assoc .., noKey.snoc (by simp),
            selected, since, info, [], s, rfl, history, member, same, rfl⟩
  | looked there step =>
      rename_i action pid name col
      have kept := justified.snoc .unlock (by simp)
      rw [there] at kept
      cases name with
      | none => trivial
      | some name => exact kept
  | confirm there =>
      rename_i action pid name opened ch
      rw [there] at justified
      obtain ⟨before, since, rfl, noKey, selected, looked⟩ := justified
      unfold MainLoop.afterConfirm
      cases yes : s.ui.confirm opened ch with
      | false => trivial
      | true =>
          obtain ⟨rfl, reply⟩ := Ui.confirm_yes yes
          exact ⟨before, since ++ [_], List.append_assoc .., noKey.snoc (by simp),
            .inr ⟨action, name, selected, rfl, looked.snoc _, ch, by simp, reply⟩⟩
  | compare there =>
      unfold MainLoop.compareGenerations
      split <;> trivial
  | _ => trivial

theorem main_justified {trace : List MainLabel} {s : MainLoop}
    (history : mainSystem.Trace trace s) : Justified trace s.main := by
  apply history.induct (P := fun trace s => Justified trace s.main)
  · rintro _ ⟨_, _, _, _, _, _, _, _, _, rfl⟩
    trivial
  · intro trace s label next earlier justified step
    exact MainStep.justified earlier justified step

/-! ## The message -/

theorem length_signedDecimal_le {i : Int} (low : -2 ^ 31 ≤ i) (high : i < 2 ^ 31) :
    (signedDecimal i).length ≤ 11 := by
  have digits : (decimal i.natAbs).length ≤ 10 := by
    unfold decimal
    split
    · simp
    · rw [List.length_map, List.length_reverse, Nat.digits_length_le_iff (by norm_num)]
      omega
  unfold signedDecimal
  split
  · rw [List.length_cons]
    omega
  · omega

/-- The message a prompt begins with, up to the number. -/
theorem confirmMsg_number (action : Action) {pid : Int} (low : -2 ^ 31 ≤ pid) (high : pid < 2 ^ 31)
    (name : Bytes) :
    ∃ rest, (confirmMsg action pid name).drop 20 = signedDecimal pid ++ 32 :: rest := by
  have short := length_signedDecimal_le low high
  have head : (text "Send " ++ action.signalName ++ text " to PID ").length = 20 := by
    cases action <;> decide
  have whole : text "Send " ++ action.signalName ++ text " to PID " ++ signedDecimal pid ++
      text " (" ++ name ++ text ")?" ++ action.caveat =
        (text "Send " ++ action.signalName ++ text " to PID ") ++
          (signedDecimal pid ++ 32 :: (40 :: (name ++ text ")?" ++ action.caveat))) := by
    have paren : text " (" = [32, 40] := by decide
    simp only [paren, List.append_assoc, List.cons_append, List.nil_append]
  unfold confirmMsg snprintf
  rw [whole, List.drop_take, ← head, List.drop_left, List.take_append]
  have room : (256 - 1 - (text "Send " ++ action.signalName ++ text " to PID ").length) -
      (signedDecimal pid).length =
        (234 - (signedDecimal pid).length) + 1 := by omega
  rw [room, List.take_succ_cons, List.take_of_length_le (by omega)]
  exact ⟨_, rfl⟩

/-- Two prompts with the same message are about the same PID. -/
theorem confirmMsg_pid {action other : Action} {pid otherPid : Int} {name otherName : Bytes}
    (fits : -2 ^ 31 ≤ pid ∧ pid < 2 ^ 31) (otherFits : -2 ^ 31 ≤ otherPid ∧ otherPid < 2 ^ 31)
    (same : confirmMsg action pid name = confirmMsg other otherPid otherName) : pid = otherPid := by
  obtain ⟨rest, here⟩ := confirmMsg_number action fits.1 fits.2 name
  obtain ⟨otherRest, there⟩ := confirmMsg_number other otherFits.1 otherFits.2 otherName
  have blank : ∀ tail : Bytes, ∀ c ∈ (32 :: tail).head?, isDigit c = false := by
    intro tail c first
    cases first
    decide
  have read := readNumber_signedDecimal pid (blank rest)
  have otherRead := readNumber_signedDecimal otherPid (blank otherRest)
  rw [← here, same, there, otherRead] at read
  simp only [Option.some.injEq, Prod.mk.injEq, decide_eq_decide] at read
  omega

/-! ## Every call of `kill()` -/

/-- In every run, a call of `kill()` goes back to a key read in the list view: its
    target is the PID of the highlighted row of the last list frame built before that
    key, and positive. Unless the key was C, the PID was in the sample the prompt took
    the name from, and the user answered yes to a message that names this PID and no
    other. -/
theorem kill_targets {trace : List MainLabel} {s : MainLoop}
    (history : mainSystem.Trace trace s) :
    ∀ before call answer after, trace = before ++ .kill call answer :: after →
      0 < call.pid ∧
      ∃ earlier ch since keyed, before = earlier ++ .key ch :: since ∧ NoKey since ∧
        mainSystem.Trace earlier keyed ∧ keyed.ui.viewMode = .processList ∧
        (lastListed earlier)[keyed.ui.selectedIndex]? = some call.pid ∧
        (commandOf ch = some .resume ∧ call.signal = .sigCont ∨
          ∃ action upTo info rest looked reply,
            commandOf ch = some (.signal action) ∧ call.signal = action.signal ∧
            since = upTo ++ .find (some info) :: rest ∧
            mainSystem.Trace (earlier ++ .key ch :: upTo) looked ∧
            info ∈ looked.col.proc.sample ∧ info.pid = call.pid ∧
            .confirm (confirmMsg action call.pid (snprintf commMax info.name)) true reply ∈ since ∧
            (reply = 121 ∨ reply = 89) ∧
            (call.pid < 2 ^ 31 → ∀ other pid name, -2 ^ 31 ≤ pid → pid < 2 ^ 31 →
              confirmMsg other pid name =
                confirmMsg action call.pid (snprintf commMax info.name) → pid = call.pid)) := by
  intro before call answer after whole
  subst whole
  obtain ⟨signalling, _, earlier, step, _, _⟩ := history.around
  have justified := main_justified earlier
  cases step with
  | kill there made =>
      rw [there] at justified
      obtain ⟨positive, rfl⟩ := killCall_pos made
      obtain ⟨_, since, rfl, noKey, way⟩ := justified
      rcases way with ⟨selected, rfl⟩ | ⟨action, name, selected, rfl, looked, confirmed⟩
      · obtain ⟨first, ch, keyed, rfl, asked, upTo, view, row, _⟩ := selected
        exact ⟨positive, first, ch, since, keyed, by simp, noKey, upTo, view, row,
          .inl ⟨asked, rfl⟩⟩
      · obtain ⟨first, ch, keyed, rfl, asked, upTo, view, row, _⟩ := selected
        obtain ⟨front, info, rest, looking, rfl, lookup, member, same, rfl⟩ := looked
        obtain ⟨reply, message, yes⟩ := confirmed
        refine ⟨positive, first, ch, _, keyed, by simp, noKey, upTo, view, row,
          .inr ⟨action, front, info, rest, looking, reply, asked, rfl, rfl, by simpa using lookup,
            member, same, message, yes, ?_⟩⟩
        intro high other pid name low below equal
        exact confirmMsg_pid ⟨low, below⟩ ⟨le_trans (by norm_num) positive.le, high⟩ equal

/-! K and y over the first frame. -/

/-- The state from a key on, up to the call of `kill()`. -/
def MainLoop.prompting (s : MainLoop) (lock : Holder) (main : MainPoint) : MainLoop :=
  { s with col := { s.col with lock := lock }, needsRedraw := true, main := main }

/-- From the list view, K looks the highlighted process up. -/
theorem lookup_run {s : MainLoop} {found : Option ProcessInfo} {pid : Int} (there : s.main = .input)
    (free : s.col.lock = .free) (view : s.ui.viewMode = .processList)
    (selected : s.ui.selectedPid = pid) (positive : 0 < pid)
    (result : s.col.proc.find pid = found) :
    mainSystem.Run s [.key 107, .lock, .find found, .unlock]
      ((s.prompting .free .redraw).afterLookup .terminate pid
        (found.map fun info => snprintf commMax info.name)) := by
  let name := found.map fun info => snprintf commMax info.name
  have key : MainStep s (.key 107) (s.prompting .free (.seeking .terminate pid)) := by
    have asked : s.handleKey 107 = s.prompting .free (.seeking .terminate pid) := by
      simp [MainLoop.handleKey, commandOf, MainLoop.runCommand, MainLoop.prompting, view, selected,
        positive, ← free]
    exact asked ▸ .key there
  have lock : MainStep (s.prompting .free (.seeking .terminate pid)) .lock
      (s.prompting .main (.finding .terminate pid)) := .lock rfl (.acquire rfl)
  have find : MainStep (s.prompting .main (.finding .terminate pid)) (.find found)
      (s.prompting .main (.found .terminate pid name)) := by
    have step := MainStep.find (s := s.prompting .main (.finding .terminate pid)) rfl
    have lookup : (s.prompting .main (.finding .terminate pid)).col.proc.find pid = found := result
    rwa [MainLoop.afterFind, lookup] at step
  have unlock : MainStep (s.prompting .main (.found .terminate pid name)) .unlock
      ((s.prompting .free .redraw).afterLookup .terminate pid name) := by
    have step := MainStep.looked (s := s.prompting .main (.found .terminate pid name)) rfl
      (.release rfl)
    cases known : name <;> rwa [known] at step
  exact .cons key <| .cons lock <| .cons find <| .single unlock

/-- Where it is still there, K asks about it. -/
theorem asking_run {s : MainLoop} {info : ProcessInfo} {pid : Int} (there : s.main = .input)
    (free : s.col.lock = .free) (view : s.ui.viewMode = .processList)
    (selected : s.ui.selectedPid = pid) (positive : 0 < pid)
    (found : s.col.proc.find pid = some info) :
    mainSystem.Run s [.key 107, .lock, .find (some info), .unlock]
      (s.prompting .free (.asking .terminate pid (snprintf commMax info.name))) :=
  lookup_run there free view selected positive found

/-- Y confirms, and the process asked about is signalled. -/
theorem confirmed_run (s : MainLoop) {pid : Int} (name : Bytes) (positive : 0 < pid)
    (agrees : s.ui.confirm true 121 = true) :
    MainStep (s.prompting .free (.asking .terminate pid name))
        (.confirm (confirmMsg .terminate pid name) true 121)
        (s.prompting .free (.signalling .sigTerm pid)) ∧
      ∃ next, MainStep (s.prompting .free (.signalling .sigTerm pid))
        (.kill ⟨pid, .sigTerm⟩ (.ok ())) next := by
  have confirm : MainStep (s.prompting .free (.asking .terminate pid name))
      (.confirm (confirmMsg .terminate pid name) true 121)
      (s.prompting .free (.signalling .sigTerm pid)) := by
    have step : MainStep (s.prompting .free (.asking .terminate pid name))
        (.confirm (confirmMsg .terminate pid name) true 121) _ := .confirm rfl
    have yes :
        (s.prompting .free (.asking .terminate pid name)).ui.confirm true 121 = true := agrees
    rwa [MainLoop.afterConfirm, yes] at step
  exact ⟨confirm, _, .kill rfl (if_neg (by omega))⟩

/-- From the list view, K and y signal the highlighted process. -/
theorem terminate_run {s : MainLoop} {info : ProcessInfo} {pid : Int} (there : s.main = .input)
    (free : s.col.lock = .free) (view : s.ui.viewMode = .processList)
    (selected : s.ui.selectedPid = pid) (positive : 0 < pid)
    (found : s.col.proc.find pid = some info) (agrees : s.ui.confirm true 121 = true) :
    ∃ since next, mainSystem.Run s
      (.key 107 :: (since ++ [.kill ⟨pid, .sigTerm⟩ (.ok ())])) next := by
  obtain ⟨confirm, next, kill⟩ := confirmed_run s _ positive agrees
  exact ⟨[_, _, _, _], next, (asking_run there free view selected positive found).append
    (.cons confirm (.single kill))⟩

theorem kill_targets_example :
    ∃ trace s, mainSystem.Trace trace s ∧ .kill ⟨3, .sigTerm⟩ (.ok ()) ∈ trace ∧
      ∃ earlier keyed, mainSystem.Trace earlier keyed ∧
        (lastListed earlier)[keyed.ui.selectedIndex]? = some 3 := by
  have selected : exampleInput.ui.selectedPid = 3 := by decide +kernel
  have present : (exampleInput.col.proc.find 3).isSome = true := by decide +kernel
  obtain ⟨info, found⟩ := Option.isSome_iff_exists.mp present
  obtain ⟨since, s, asked⟩ := terminate_run (s := exampleInput) rfl rfl (by decide +kernel)
    selected (by decide) found (by decide +kernel)
  have history := (example_painted.append example_input).append asked
  rw [← List.cons_append, ← List.append_assoc] at history
  obtain ⟨_, earlier, ch, _, keyed, _, _, upTo, _, row, _⟩ :=
    kill_targets history _ _ _ [] rfl
  exact ⟨_, s, history, by simp, earlier, keyed, upTo, row⟩

end KernelMonitor
