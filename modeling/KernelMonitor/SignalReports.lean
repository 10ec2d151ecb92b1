import KernelMonitor.EventLog
import KernelMonitor.FreshFrames
import KernelMonitor.ListWindow

/-! # What the status bar says of an attempt to signal

An attempt begins with K, X or S over a highlighted process and lasts until the handler
is left. What it leaves on the status bar is compared with what became of it, for every
order of its steps with those of the collector.
-/

namespace KernelMonitor

open Library

/-! ## Outcomes -/

def Ui.status (ui : Ui) : Bytes × Bool := (ui.statusMessage, ui.statusIsError)

def Frame.status (frame : Frame) : Bytes × Bool := (frame.statusMessage, frame.statusIsError)

/-- The line about a PID, through the three buffers it passes. -/
def statusText (pid : Int) (reason : Bytes) : Bytes :=
  snprintf statusMsgMax (snprintf 320
    (text "PID " ++ signedDecimal pid ++ text ": " ++ snprintf signalMsgMax reason))

/-- What became of an attempt, by the labels since its key, and how the status bar is
    to state it: the message, and whether it is an error. -/
inductive Outcome (action : Action) (pid : Int) (since : List MainLabel) : Bytes × Bool → Prop where
  | cancelled {name : Bytes} {opened : Bool} {ch : Int}
      (asked : .confirm (confirmMsg action pid name) opened ch ∈ since)
      (unsent : ∀ call answer, .kill call answer ∉ since) :
      Outcome action pid since (text "Cancelled", false)
  | sent (called : .kill ⟨pid, action.signal⟩ (.ok ()) ∈ since) :
      Outcome action pid since (statusText pid (text "Signal sent successfully"), false)
  | failed {errno : Errno} (called : .kill ⟨pid, action.signal⟩ (.error errno) ∈ since) :
      Outcome action pid since (statusText pid errno.message, true)

/-- The attempt's outcome is on the status bar, in every frame since and at the latest
    in the one its iteration ends with. -/
def Reported (action : Action) (pid : Int) (since : List MainLabel) (s : MainLoop) : Prop :=
  ∃ status, Outcome action pid since status ∧ s.ui.status = status ∧
    (∀ shown, .frame shown ∈ since → shown.status = status) ∧
    (s.main = .painted → ∃ shown, .frame shown ∈ since)

/-- The state in which the attempt makes its lookup still has the PID. -/
def FoundAtLookup (keyed : MainLoop) (ch : Int) (since : List MainLabel) (s : MainLoop) : Prop :=
  ∃ upTo info rest looking, since = upTo ++ .find info :: rest ∧
    mainSystem.Run keyed (.key ch :: upTo) looking ∧
    mainSystem.Run looking (.find info :: rest) s ∧
    (looking.col.proc.find keyed.ui.selectedPid).isSome = true

/-- The places inside the handler. -/
def MainPoint.attempting : MainPoint → Bool
  | .seeking _ _ | .finding _ _ | .found _ _ _ | .asking _ _ _ | .signalling _ _ => true
  | _ => false

/-! ## The steps of an attempt -/

def Found (since : List MainLabel) : Prop := ∃ info, .find (some info) ∈ since

/-- A label that neither finds the process nor decides or shows anything. -/
def MainLabel.quiet : MainLabel → Bool
  | .find (some _) | .confirm _ _ _ | .kill _ _ | .frame _ => false
  | _ => true

/-- Nobody was asked, nothing sent and nothing drawn. -/
structure Silent (since : List MainLabel) : Prop where
  unasked : ∀ message opened ch, .confirm message opened ch ∉ since
  unsent : ∀ call answer, .kill call answer ∉ since
  undrawn : ∀ shown, .frame shown ∉ since

/-- After the handler: the outcome of a process that was found is the status, and one
    that was not found left the status it met. -/
def Settled (action : Action) (pid : Int) (met : Bytes × Bool) (since : List MainLabel)
    (status : Bytes × Bool) : Prop :=
  Found since ∧ Outcome action pid since status ∧
      (∀ shown, .frame shown ∈ since → shown.status = status) ∨
    ¬ Found since ∧ (∀ message opened ch, .confirm message opened ch ∉ since) ∧
      (∀ call answer, .kill call answer ∉ since) ∧ status = met

/-- How far the attempt has come where the main thread is. -/
def Attempt (action : Action) (pid : Int) (met : Bytes × Bool) (since : List MainLabel)
    (status : Bytes × Bool) : MainPoint → Prop
  | .seeking here target | .finding here target =>
      here = action ∧ target = pid ∧ Silent since ∧ ¬ Found since ∧ status = met
  | .found here target name =>
      here = action ∧ target = pid ∧ Silent since ∧ (Found since ↔ name.isSome = true) ∧
        status = met
  | .asking here target _ => here = action ∧ target = pid ∧ Silent since ∧ Found since
  | .signalling signal target =>
      signal = action.signal ∧ target = pid ∧ Found since ∧ ∀ shown, .frame shown ∉ since
  | .calling call | .inside call | .returning call =>
      Settled action pid met since status ∧ call = .stop
  | _ => Settled action pid met since status

section Steps

variable {action : Action} {pid : Int} {met status : Bytes × Bool} {since : List MainLabel}
  {label : MainLabel}

theorem not_mem_snoc {other : MainLabel} (before : other ∉ since) (apart : other ≠ label) :
    other ∉ since ++ [label] := by
  rw [List.mem_append, List.mem_singleton]
  exact not_or.mpr ⟨before, apart⟩

/-- A quiet label is none of the loud ones. -/
theorem not_mem_quiet {other : MainLabel} (before : other ∉ since) (quiet : label.quiet = true)
    (loud : other.quiet = false) : other ∉ since ++ [label] := by
  refine not_mem_snoc before ?_
  rintro rfl
  rw [quiet] at loud
  cases loud

theorem found_snoc (quiet : label.quiet = true) : Found (since ++ [label]) ↔ Found since := by
  refine exists_congr fun info => ?_
  rw [List.mem_append, List.mem_singleton, or_iff_left]
  rintro rfl
  cases quiet

theorem Silent.snoc (silent : Silent since) (quiet : label.quiet = true) :
    Silent (since ++ [label]) where
  unasked message opened ch := not_mem_quiet (silent.unasked message opened ch) quiet rfl
  unsent call answer := not_mem_quiet (silent.unsent call answer) quiet rfl
  undrawn shown := not_mem_quiet (silent.undrawn shown) quiet rfl

/-- Only another call of `kill()` could change what became of the attempt. -/
theorem Outcome.snoc (outcome : Outcome action pid since status)
    (other : ∀ call answer, label ≠ .kill call answer) :
    Outcome action pid (since ++ [label]) status := by
  cases outcome with
  | cancelled asked unsent =>
      exact .cancelled (List.mem_append_left _ asked) fun call answer =>
        not_mem_snoc (unsent call answer) (other call answer).symm
  | sent called => exact .sent (List.mem_append_left _ called)
  | failed called => exact .failed (List.mem_append_left _ called)

theorem Settled.snoc (settled : Settled action pid met since status)
    (quiet : label.quiet = true) : Settled action pid met (since ++ [label]) status := by
  rcases settled with ⟨found, outcome, shows⟩ | ⟨missing, unasked, unsent, same⟩
  · have sent : ∀ call answer, label ≠ .kill call answer := by
      rintro call answer rfl
      cases quiet
    refine .inl ⟨(found_snoc quiet).mpr found, outcome.snoc sent, fun shown member => ?_⟩
    rcases List.mem_append.mp member with earlier | last
    · exact shows shown earlier
    · cases List.mem_singleton.mp last
      cases quiet
  · exact .inr ⟨fun found => missing ((found_snoc quiet).mp found),
      fun message opened ch => not_mem_quiet (unasked message opened ch) quiet rfl,
      fun call answer => not_mem_quiet (unsent call answer) quiet rfl, same⟩

/-- A frame shows the status it is drawn with. -/
theorem Settled.drawn (settled : Settled action pid met since status) {shown : Frame}
    (same : shown.status = status) :
    Settled action pid met (since ++ [.frame shown]) status := by
  have found : Found (since ++ [.frame shown]) ↔ Found since :=
    exists_congr fun info => by simp
  rcases settled with ⟨here, outcome, shows⟩ | ⟨missing, unasked, unsent, kept⟩
  · refine .inl ⟨found.mpr here, outcome.snoc (by simp), fun other member => ?_⟩
    rcases List.mem_append.mp member with earlier | last
    · exact shows other earlier
    · cases List.mem_singleton.mp last
      exact same
  · exact .inr ⟨fun here => missing (found.mp here),
      fun message opened ch => not_mem_snoc (unasked message opened ch) (by simp),
      fun call answer => not_mem_snoc (unsent call answer) (by simp), kept⟩

/-- Labels of no account to the attempt. -/
theorem Attempt.snoc {point : MainPoint} (attempt : Attempt action pid met since status point)
    (quiet : label.quiet = true) : Attempt action pid met (since ++ [label]) status point := by
  have found : Found (since ++ [label]) ↔ Found since := found_snoc quiet
  cases point with
  | seeking here target | finding here target =>
      obtain ⟨same, aimed, silent, missing, kept⟩ := attempt
      exact ⟨same, aimed, silent.snoc quiet, fun here => missing (found.mp here), kept⟩
  | found here target name =>
      obtain ⟨same, aimed, silent, known, kept⟩ := attempt
      exact ⟨same, aimed, silent.snoc quiet, found.trans known, kept⟩
  | asking here target name =>
      obtain ⟨same, aimed, silent, here⟩ := attempt
      exact ⟨same, aimed, silent.snoc quiet, found.mpr here⟩
  | signalling signal target =>
      obtain ⟨same, aimed, here, undrawn⟩ := attempt
      exact ⟨same, aimed, found.mpr here, fun shown => not_mem_quiet (undrawn shown) quiet rfl⟩
  | calling call | inside call | returning call => exact ⟨attempt.1.snoc quiet, attempt.2⟩
  | _ => exact Settled.snoc attempt quiet

/-- The handler is left with the attempt settled. -/
theorem Attempt.settled {point : MainPoint} (attempt : Attempt action pid met since status point)
    (left : point.attempting = false) : Settled action pid met since status := by
  cases point with
  | seeking | finding | found | asking | signalling => cases left
  | calling | inside | returning => exact attempt.1
  | _ => exact attempt

end Steps

theorem Ui.draw_status (mem : DrawMemory) (width height : Int) (ui : Ui) (sys : SystemMonitor)
    (m : ProcessMonitor) :
    (ui.draw mem width height sys m).1.status = ui.status ∧
      (ui.draw mem width height sys m).2.status = ui.status := by
  have content (ui : Ui) : (ui.drawContent mem m).1.status = ui.status := by
    unfold Ui.drawContent
    cases ui.viewMode with
    | processList =>
        rcases Ui.drawProcessList_cases mem ui m with ⟨_, failed⟩ | ⟨_, _, _, _, built⟩
        · rw [failed]
          rfl
        · rw [built, Ui.scrollTo_eq, Ui.follow_eq]
          rfl
    | _ => rfl
  exact ⟨content _, content _⟩

theorem MainLoop.report_status (s : MainLoop) {pid : Int} (positive : 0 < pid) (signal : Signal)
    (answer : Except Errno Unit) :
    (s.report (sendSignal pid signal answer)).ui.status =
      match answer with
      | .ok () => (statusText pid (text "Signal sent successfully"), false)
      | .error errno => (statusText pid errno.message, true) := by
  have made : killCall pid signal = some ⟨pid, signal⟩ := if_neg (by omega)
  cases answer <;> simp only [sendSignal, made] <;> rfl

/-- One case for each step the main thread can take, besides reading another key. -/
theorem MainStep.attempt {action : Action} {pid : Int} {met : Bytes × Bool}
    {since : List MainLabel} {s next : MainLoop} {label : MainLabel}
    (step : MainStep s label next) (other : ∀ ch, label ≠ .key ch) (positive : 0 < pid)
    (attempt : Attempt action pid met since s.ui.status s.main) :
    Attempt action pid met (since ++ [label]) next.ui.status next.main := by
  cases step with
  | background own step => exact attempt.snoc rfl
  | interrupt => exact attempt.snoc rfl
  | test there =>
      rw [there] at attempt
      have settled : Settled action pid met (since ++ [.test]) s.ui.status :=
        Settled.snoc attempt rfl
      dsimp only
      split
      · exact settled
      · split
        · exact ⟨settled, rfl⟩
        · exact settled
  | key there => exact absurd rfl (other _)
  | lock waiting step =>
      have kept : Attempt action pid met (since ++ [.lock]) s.ui.status s.main :=
        attempt.snoc rfl
      cases there : s.main <;> rw [there] at waiting kept <;> cases waiting <;> exact kept
  | call there step =>
      rename_i call _
      have kept : Attempt action pid met (since ++ [.call call]) s.ui.status s.main :=
        attempt.snoc rfl
      rw [there] at kept
      exact kept
  | returned there step =>
      have kept : Attempt action pid met (since ++ [.unlock]) s.ui.status s.main :=
        attempt.snoc rfl
      rw [there] at kept
      obtain ⟨settled, rfl⟩ := kept
      exact settled
  | find there =>
      rename_i here target
      rw [there] at attempt
      obtain ⟨rfl, rfl, silent, missing, kept⟩ := attempt
      have found : Found (since ++ [.find (s.col.proc.find target)]) ↔
          (s.col.proc.find target).isSome = true := by
        rw [Option.isSome_iff_exists]
        refine exists_congr fun info => ?_
        rw [List.mem_append, List.mem_singleton, or_iff_right fun here => missing ⟨info, here⟩,
          MainLabel.find.injEq, eq_comm]
      refine ⟨rfl, rfl, ⟨?_, ?_, ?_⟩, by simpa using found, kept⟩
      · exact fun message opened ch => not_mem_snoc (silent.unasked message opened ch) (by simp)
      · exact fun call answer => not_mem_snoc (silent.unsent call answer) (by simp)
      · exact fun shown => not_mem_snoc (silent.undrawn shown) (by simp)
  | looked there step =>
      rename_i here target name col
      have kept : Attempt action pid met (since ++ [.unlock]) s.ui.status s.main :=
        attempt.snoc rfl
      rw [there] at kept
      obtain ⟨rfl, rfl, silent, known, same⟩ := kept
      cases name with
      | none => exact .inr ⟨fun found => by simpa using known.mp found, silent.unasked,
          silent.unsent, same⟩
      | some name => exact ⟨rfl, rfl, silent, known.mpr rfl⟩
  | confirm there =>
      rename_i here target name opened ch
      rw [there] at attempt
      obtain ⟨rfl, rfl, silent, info, member⟩ := attempt
      have found : Found (since ++ [.confirm (confirmMsg here target name) opened ch]) :=
        ⟨info, List.mem_append_left _ member⟩
      have undrawn (shown : Frame) :
          .frame shown ∉ since ++ [.confirm (confirmMsg here target name) opened ch] :=
        not_mem_snoc (silent.undrawn shown) (by simp)
      unfold MainLoop.afterConfirm
      split
      · exact ⟨rfl, rfl, found, undrawn⟩
      · refine .inl ⟨found, .cancelled (List.mem_append_right _ (List.mem_singleton.mpr rfl)) ?_,
          fun shown member => absurd member (undrawn shown)⟩
        exact fun call answer => not_mem_snoc (silent.unsent call answer) (by simp)
  | kill there made =>
      rename_i signal target call answer
      rw [there] at attempt
      obtain ⟨rfl, rfl, ⟨info, member⟩, undrawn⟩ := attempt
      obtain ⟨_, rfl⟩ := killCall_pos made
      have called : MainLabel.kill ⟨target, action.signal⟩ answer ∈
          since ++ [.kill ⟨target, action.signal⟩ answer] := by simp
      refine .inl ⟨⟨info, List.mem_append_left _ member⟩, ?_, fun shown member =>
        absurd member (not_mem_snoc (undrawn shown) (by simp))⟩
      rw [MainLoop.report_status s positive]
      cases answer with
      | ok sent => exact .sent called
      | error errno => exact .failed called
  | refused there none =>
      rw [there] at attempt
      obtain ⟨rfl, rfl, _, _⟩ := attempt
      rw [killCall, if_neg (by omega)] at none
      cases none
  | compare there =>
      rw [there] at attempt
      have settled : Settled action pid met (since ++ [.compare]) s.ui.status :=
        Settled.snoc attempt rfl
      unfold MainLoop.compareGenerations
      split <;> exact settled
  | frame there due =>
      rw [there] at attempt
      rename_i mem width height
      obtain ⟨same, shown⟩ := Ui.draw_status mem width height s.ui s.col.sys s.col.proc
      have settled : Settled action pid met since s.ui.status := attempt
      rw [← same] at settled
      exact settled.drawn (shown.trans same.symm)
  | skip there clean =>
      rw [there] at attempt
      exact Settled.snoc attempt rfl
  | release there step =>
      rw [there] at attempt
      exact Settled.snoc attempt rfl
  | join there step =>
      rw [there] at attempt
      exact Settled.snoc attempt rfl

/-! ## Whole attempts -/

/-- What the key leads to. -/
theorem handleKey_attempt {keyed : MainLoop} {ch : Int} {action : Action}
    (asked : commandOf ch = some (.signal action)) (view : keyed.ui.viewMode = .processList)
    (selected : 0 < keyed.ui.selectedPid) :
    keyed.handleKey ch =
      { keyed with needsRedraw := true, main := .seeking action keyed.ui.selectedPid } := by
  simp only [MainLoop.handleKey, asked, MainLoop.runCommand]
  rw [if_neg (not_not.mpr view), if_neg (by omega)]

theorem attempt_run {keyed s : MainLoop} {ch : Int} {action : Action} {since : List MainLabel}
    (asked : commandOf ch = some (.signal action)) (view : keyed.ui.viewMode = .processList)
    (selected : 0 < keyed.ui.selectedPid) (run : mainSystem.Run keyed (.key ch :: since) s)
    (noKey : NoKey since) :
    Attempt action keyed.ui.selectedPid keyed.ui.status since s.ui.status s.main ∧
      (s.needsRedraw = true ∨ ∃ shown, .frame shown ∈ since) := by
  obtain ⟨begun, step, rest⟩ := run.first
  cases step with
  | key there =>
      rw [handleKey_attempt asked view selected] at rest
      refine rest.induct (P := fun since s => NoKey since →
        Attempt action keyed.ui.selectedPid keyed.ui.status since s.ui.status s.main ∧
          (s.needsRedraw = true ∨ ∃ shown, .frame shown ∈ since)) (fun _ => ?_) ?_ noKey
      · exact ⟨⟨rfl, rfl, ⟨by simp, by simp, by simp⟩, by simp [Found], rfl⟩, .inl rfl⟩
      · intro since s label next _ ih step noKey
        have other : ∀ ch, label ≠ .key ch := by
          rintro ch rfl
          exact noKey ch (by simp)
        obtain ⟨attempt, due⟩ := ih fun ch member => noKey ch (List.mem_append_left _ member)
        refine ⟨MainStep.attempt step other selected attempt, ?_⟩
        rcases due with due | ⟨shown, member⟩
        · by_cases frame : ∃ shown, label = .frame shown
          · obtain ⟨shown, rfl⟩ := frame
            exact .inr ⟨shown, by simp⟩
          · rcases MainStep.undrawn step fun shown same => frame ⟨shown, same⟩ with kept | kept
            · exact .inl kept
            · exact .inl (kept.1.trans due)
        · exact .inr ⟨shown, List.mem_append_left _ member⟩

/-- The attempt looks up the PID it was made for. -/
theorem lookup_target {keyed looking next : MainLoop} {ch : Int} {action : Action}
    {upTo : List MainLabel} {info : Option ProcessInfo}
    (asked : commandOf ch = some (.signal action)) (view : keyed.ui.viewMode = .processList)
    (selected : 0 < keyed.ui.selectedPid) (run : mainSystem.Run keyed (.key ch :: upTo) looking)
    (noKey : NoKey upTo) (step : MainStep looking (.find info) next) :
    info = looking.col.proc.find keyed.ui.selectedPid := by
  obtain ⟨attempt, _⟩ := attempt_run asked view selected run noKey
  cases step with
  | find there =>
      rw [there] at attempt
      rw [attempt.2.1]

theorem found_iff {keyed s : MainLoop} {ch : Int} {action : Action} {since : List MainLabel}
    (asked : commandOf ch = some (.signal action)) (view : keyed.ui.viewMode = .processList)
    (selected : 0 < keyed.ui.selectedPid) (run : mainSystem.Run keyed (.key ch :: since) s)
    (noKey : NoKey since) : Found since ↔ FoundAtLookup keyed ch since s := by
  have target {upTo rest : List MainLabel} {info : Option ProcessInfo} {looking : MainLoop}
      (whole : since = upTo ++ .find info :: rest)
      (head : mainSystem.Run keyed (.key ch :: upTo) looking)
      (tail : mainSystem.Run looking (.find info :: rest) s) :
      info = looking.col.proc.find keyed.ui.selectedPid := by
    obtain ⟨next, step, _⟩ := tail.first
    refine lookup_target asked view selected head (fun ch member => noKey ch ?_) step
    rw [whole]
    exact List.mem_append_left _ member
  constructor
  · rintro ⟨info, member⟩
    obtain ⟨upTo, rest, whole⟩ := List.append_of_mem member
    rw [whole, ← List.cons_append] at run
    obtain ⟨looking, head, tail⟩ := run.split
    refine ⟨upTo, some info, rest, looking, whole, head, tail, ?_⟩
    rw [← target whole head tail]
    rfl
  · rintro ⟨upTo, found, rest, looking, whole, head, tail, present⟩
    rw [← target whole head tail] at present
    obtain ⟨info, rfl⟩ := Option.isSome_iff_exists.mp present
    exact ⟨info, by rw [whole]; simp⟩

/-- In every run of the program: once the handler of a K, X or S that was pressed in the
    list view over a process is left, and until the next key is read, the outcome is on
    the status bar exactly if the lookup found the PID in the sample of that moment.
    Where it did not, the status bar is as it was before the key. A handler whose `kill` ends
    the program itself is never left. -/
theorem attempt_reported_iff {before since : List MainLabel} {keyed s : MainLoop} {ch : Int}
    {action : Action} (history : mainSystem.Trace before keyed)
    (asked : commandOf ch = some (.signal action)) (view : keyed.ui.viewMode = .processList)
    (selected : 0 < keyed.ui.selectedPid) (run : mainSystem.Run keyed (.key ch :: since) s)
    (noKey : NoKey since) (left : s.main.attempting = false) :
    (Reported action keyed.ui.selectedPid since s ↔ FoundAtLookup keyed ch since s) ∧
      (¬ FoundAtLookup keyed ch since s → s.ui.status = keyed.ui.status) := by
  obtain ⟨attempt, due⟩ := attempt_run asked view selected run noKey
  rw [← found_iff asked view selected run noKey]
  have settled := attempt.settled left
  constructor
  · constructor
    · rintro ⟨status, outcome, _⟩
      rcases settled with ⟨found, _⟩ | ⟨_, unasked, unsent, _⟩
      · exact found
      · cases outcome with
        | cancelled asked => exact absurd asked (unasked _ _ _)
        | sent called => exact absurd called (unsent _ _)
        | failed called => exact absurd called (unsent _ _)
    · intro found
      rcases settled with ⟨_, outcome, shows⟩ | ⟨missing, _⟩
      · refine ⟨_, outcome, rfl, shows, fun painted => due.resolve_left fun flag => ?_⟩
        have clean := (main_synced (history.append run)).clean painted
        rw [clean] at flag
        cases flag
      · exact absurd found missing
  · intro missing
    rcases settled with ⟨found, _⟩ | ⟨_, _, _, same⟩
    · exact absurd found missing
    · exact same

/-! ## A process that is gone -/

/-- Whatever its steps, a sweep is a run of the collector. -/
theorem sweeps_run (c : Collector) {w : Sweep} {a b : SweepPoint × ProcessMonitor}
    (sweeps : Sweeps w a b) :
    ∃ labels, collectorSystem.Run { c with proc := a.2, thread := .sweeping w a.1 } labels
        { c with proc := b.2, thread := .sweeping w b.1 } ∧
      ∀ label ∈ labels, label.byMain = false := by
  induction sweeps with
  | refl => exact ⟨[], .refl _, by simp⟩
  | tail _ step ih =>
      rename_i b d _
      obtain ⟨labels, run, own⟩ := ih
      have next : collectorSystem.Step { c with proc := b.2, thread := .sweeping w b.1 } .sweep
          { c with proc := d.2, thread := .sweeping w d.1 } := CollectorStep.sweep rfl step
      refine ⟨labels ++ [.sweep], .snoc run next, ?_⟩
      exact List.forall_mem_append.mpr ⟨own, by simp [CollectorLabel.byMain]⟩

/-- From its entry on, the collector publishes one sweep and waits again. -/
theorem publish_run {c : Collector} (entry : c.thread = .entry) (free : c.lock = .free)
    (going : c.stopping = false) (quiet : c.refreshRequested = false) (w : Sweep) (time : Stamps) :
    ∃ labels d, collectorSystem.Run c labels d ∧ (∀ label ∈ labels, label.byMain = false) ∧
      d.lock = .free ∧ d.proc = update w time c.proc := by
  let deadline := addMs c.clock c.intervalMs
  let now : Timespec := ⟨max c.clock.sec deadline.sec + 1, 0⟩
  have later : c.clock.NotAfter now := .inl (by simp only [now]; omega)
  have due : deadline.NotAfter now := .inl (by simp only [now]; omega)
  let swept : Collector :=
    { c with lock := .free, refreshRequested := false, last := now, clock := now }
  obtain ⟨labels, sweep, own⟩ := sweeps_run swept (collect_sweeps w c.proc)
  have ahead : collectorSystem.Run c [.readClock, .lock, .sleep, .tick now, .timeout, .reacquire,
      .startSweep w, .stamp] { swept with proc := c.proc, thread := .sweeping w .start } :=
    .cons (.readClock entry) <| .cons (.lock rfl free) <| .cons (.sleep rfl going quiet) <|
      .cons (.tick later) <| .cons (.timeout rfl due) <| .cons (.reacquire rfl rfl) <|
      .cons (.startSweep rfl going) <| .single (.stamp rfl)
  let done : Collector := { swept with proc := collect w c.proc, thread := .sweeping w .done }
  let published : Collector :=
    { done with
      lock := .collector, sys := (done.sys.update exampleReads).2, proc := publish time done.proc,
      generation := done.generation + 1, thread := .testing }
  have behind : collectorSystem.Run done [.relock, .updateSys exampleReads, .publish time, .bump]
      published :=
    .cons (.relock rfl rfl) <| .cons (.updateSys rfl) <| .cons (.publish rfl) <| .single (.bump rfl)
  have sleep : collectorSystem.Step published .sleep _ := .sleep rfl going rfl
  refine ⟨_, _, .snoc ((ahead.append sweep).append behind) sleep, ?_, rfl, rfl⟩
  simp only [List.forall_mem_append]
  exact ⟨⟨⟨by simp [CollectorLabel.byMain], own⟩, by simp [CollectorLabel.byMain]⟩,
    by simp [CollectorLabel.byMain]⟩

/-- A sample without the highlighted process is published while the list still shows it,
    and K is pressed. -/
theorem vanishing_run {s : MainLoop} {pid : Int} (there : s.main = .input)
    (entry : s.col.thread = .entry) (free : s.col.lock = .free) (going : s.col.stopping = false)
    (quiet : s.col.refreshRequested = false) (view : s.ui.viewMode = .processList)
    (selected : s.ui.selectedPid = pid) (positive : 0 < pid) {w : Sweep} {time : Stamps}
    (gone : (update w time s.col.proc).find pid = none) :
    ∃ labels keyed, mainSystem.Run s labels keyed ∧ keyed.ui = s.ui ∧
      mainSystem.Run keyed [.key 107, .lock, .find none, .unlock]
        (keyed.prompting .free .redraw) := by
  obtain ⟨labels, col, run, own, unlocked, proc⟩ := publish_run entry free going quiet w time
  rw [← proc] at gone
  exact ⟨_, { s with col := col }, background_run run own, rfl,
    lookup_run there unlocked view selected positive gone⟩

/-- The row of PID 3 is highlighted in the first list. -/
theorem example_selected :
    exampleInput.ui.viewMode = .processList ∧ exampleInput.ui.selectedPid = 3 := by
  decide +kernel

theorem vanished_process_unreported :
    ¬ ∀ before keyed ch action since s, mainSystem.Trace before keyed →
      commandOf ch = some (.signal action) → keyed.ui.viewMode = .processList →
      0 < keyed.ui.selectedPid → mainSystem.Run keyed (.key ch :: since) s → NoKey since →
      s.main.attempting = false → Reported action keyed.ui.selectedPid since s := by
  intro every
  obtain ⟨view, selected⟩ := example_selected
  have gone : (update exampleGone exampleStamps exampleSample).find 3 = none := by decide +kernel
  obtain ⟨labels, keyed, before, ui, run⟩ :=
    vanishing_run rfl rfl rfl rfl rfl view selected (by decide) gone
  have history := (example_painted.append example_input).append before
  rw [← ui] at view selected
  obtain ⟨status, outcome, _⟩ := every _ _ 107 .terminate _ _ history rfl view
    (by rw [selected]; decide) run (by simp [NoKey]) rfl
  cases outcome with
  | cancelled asked => simp at asked
  | sent called => simp at called
  | failed called => simp at called

/-- Any key but y takes the prompt back. -/
theorem cancelled_step (s : MainLoop) {pid : Int} (name : Bytes) {ch : Int}
    (refuses : s.ui.confirm true ch = false) :
    MainStep (s.prompting .free (.asking .terminate pid name))
      (.confirm (confirmMsg .terminate pid name) true ch)
      { s.prompting .free .redraw with ui := s.ui.setStatus (text "Cancelled") false } := by
  have step : MainStep (s.prompting .free (.asking .terminate pid name))
      (.confirm (confirmMsg .terminate pid name) true ch) _ := .confirm rfl
  have no : (s.prompting .free (.asking .terminate pid name)).ui.confirm true ch = false := refuses
  rwa [MainLoop.afterConfirm, no] at step

/-- K over PID 3, which is still there, and n. -/
theorem attempt_reported_iff_example :
    ∃ since s, mainSystem.Run exampleInput (.key 107 :: since) s ∧
      Reported .terminate 3 since s := by
  obtain ⟨view, selected⟩ := example_selected
  have present : (exampleInput.col.proc.find 3).isSome = true := by decide +kernel
  obtain ⟨info, found⟩ := Option.isSome_iff_exists.mp present
  have refuses : exampleInput.ui.confirm true 110 = false := by decide +kernel
  have run := (asking_run (s := exampleInput) rfl rfl view selected (by decide) found).append
    (.single (cancelled_step exampleInput (snprintf commMax info.name) refuses))
  have key : commandOf 107 = some (.signal .terminate) := rfl
  have reported := (attempt_reported_iff (example_painted.append example_input) key view
    (by rw [selected]; decide) run (by simp [NoKey]) rfl).1
  have located := found_iff key view (by rw [selected]; decide) run (by simp [NoKey])
  rw [selected] at reported
  exact ⟨_, _, run, reported.mpr (located.mp ⟨info, by simp⟩)⟩

end KernelMonitor
