import KernelMonitor.Library.Simulation
import KernelMonitor.FreshFrames
import KernelMonitor.Selection

/-! # The program without its second thread

A sweep takes many steps while the main thread goes on reading, drawing and signalling.
To the main thread it is one step all the same: the program behaves as one in which a
new generation is swept, read and published at once, while nobody holds the lock. Only
the scan time of a frame tells the two apart.
-/

namespace KernelMonitor

open Library

/-! ## One step for a generation -/

/-- What the kernel and the allocator answer while one generation is made. -/
structure Refresh where
  sweep : Sweep
  reads : SystemReads
  time : Stamps

/-- A whole generation at once. -/
def Collector.refreshed (c : Collector) (r : Refresh) : Collector :=
  { c with
    sys := (c.sys.update r.reads).2
    proc := update r.sweep r.time c.proc
    generation := c.generation + 1 }

def Frame.withoutScan (f : Frame) : Frame := { f with scanMs := none }

/-- A label of the main thread, apart from the scan time of a frame. -/
def MainLabel.withoutScan : MainLabel → MainLabel
  | .frame f => .frame f.withoutScan
  | label => label

def MainLabel.isBackground : MainLabel → Bool
  | .background _ => true
  | _ => false

inductive SerialLabel where
  | main (label : MainLabel)
  | refresh (r : Refresh)

/-- What the sweeps of a run are known to satisfy when they begin. -/
abbrev SweepRule : Type := Sweep → ProcessMonitor → Prop

/-- The main thread's steps, and whole generations between them. The collector's thread
    takes none: it counts as having exited from the beginning. -/
inductive SerialStep (Allowed : SweepRule) : MainLoop → SerialLabel → MainLoop → Prop where
  | main {a next : MainLoop} {label : MainLabel} (own : label.isBackground = false)
      (step : MainStep a label next) : SerialStep Allowed a (.main label.withoutScan) next
  | refresh {a : MainLoop} {r : Refresh} (free : a.col.lock = .free)
      (allowed : Allowed r.sweep a.col.proc) :
      SerialStep Allowed a (.refresh r) { a with col := a.col.refreshed r }

def Collector.threadless (c : Collector) : Collector := { c with thread := .exited }

def serialSystem (Allowed : SweepRule) : LabelledSystem MainLoop SerialLabel where
  Init a := ∃ s, mainSystem.Init s ∧ a = { s with col := s.col.threadless }
  Step := SerialStep Allowed

/-- The program with sweeps that satisfy a rule when they begin. -/
def SweepsBy (Allowed : SweepRule) (s : MainLoop) (label : MainLabel) (_next : MainLoop) : Prop :=
  ∀ w, label = .background (.startSweep w) → Allowed w s.col.proc

/-! ## The serial run of a run -/

/-- What has been answered so far for the generation under way. -/
structure Gathered where
  sweep : Option Sweep
  reads : Option SystemReads
  time : Option Stamps

def Gathered.nothing : Gathered := ⟨none, none, none⟩

def Gathered.add (g : Gathered) : CollectorLabel → Gathered
  | .startSweep w => { g with sweep := some w }
  | .updateSys reads => { g with reads := some reads }
  | .publish time => { g with time := some time }
  | _ => g

def Gathered.see (g : Gathered) : MainLabel → Gathered
  | .background label => g.add label
  | _ => g

def Gathered.refresh? (g : Gathered) : Option Refresh := do
  some ⟨← g.sweep, ← g.reads, ← g.time⟩

/-- The serial step for a label: a whole generation where the thread counts it, and what
    the main thread does. -/
def Gathered.serial? (g : Gathered) : MainLabel → Option SerialLabel
  | .background .bump => g.refresh?.map .refresh
  | .background _ => none
  | label => some (.main label.withoutScan)

def serialise (trace : List MainLabel) : Gathered × List SerialLabel :=
  trace.foldl (fun (g, done) label => (g.see label, done ++ (g.serial? label).toList))
    (.nothing, [])

def gathered (trace : List MainLabel) : Gathered := (serialise trace).1

/-- A run without its second thread. -/
def serialTrace (trace : List MainLabel) : List SerialLabel := (serialise trace).2

theorem gathered_snoc (trace : List MainLabel) (label : MainLabel) :
    gathered (trace ++ [label]) = (gathered trace).see label := by
  rw [gathered, serialise, List.foldl_append]
  rfl

theorem serialTrace_snoc (trace : List MainLabel) (label : MainLabel) :
    serialTrace (trace ++ [label]) =
      serialTrace trace ++ ((gathered trace).serial? label).toList := by
  rw [serialTrace, serialise, List.foldl_append]
  rfl

/-! ## The collector beside its serial self -/

/-- The figures of the two are the same. -/
structure Collector.Even (c base : Collector) : Prop where
  sys : c.sys = base.sys
  proc : c.proc = base.proc
  generation : c.generation = base.generation

/-- How far the collector's thread is ahead of the last whole generation. -/
def Collector.Ahead (Allowed : SweepRule) (g : Gathered) (c base : Collector) :
    ThreadPoint → Prop
  | .stamping w => g.sweep = some w ∧ Allowed w base.proc ∧ c.Even base
  | .sweeping w point => g.sweep = some w ∧ Allowed w base.proc ∧ c.sys = base.sys ∧
      c.generation = base.generation ∧ sweepResult w (point, c.proc) = collect w base.proc ∧
      SameForMain base.proc { c.proc with lastScanMs := base.proc.lastScanMs }
  | .updating => ∃ w, g.sweep = some w ∧ Allowed w base.proc ∧ c.sys = base.sys ∧
      c.generation = base.generation ∧ c.proc = collect w base.proc
  | .publishing => ∃ w reads, g.sweep = some w ∧ Allowed w base.proc ∧ g.reads = some reads ∧
      c.sys = (base.sys.update reads).2 ∧ c.generation = base.generation ∧
      c.proc = collect w base.proc
  | .bumping => ∃ r, g.refresh? = some r ∧ Allowed r.sweep base.proc ∧
      c.sys = (base.sys.update r.reads).2 ∧ c.generation = base.generation ∧
      c.proc = update r.sweep r.time base.proc
  | _ => c.Even base

/-- What holds between a collector and the one without a thread. -/
structure Collector.Follows (Allowed : SweepRule) (g : Gathered) (c base : Collector) : Prop where
  locked : c.Locked
  held : base.lock = if c.lock = .main then .main else .free
  running : base.running = c.running
  stopping : base.stopping = c.stopping
  thread : base.thread = .exited
  ahead : c.Ahead Allowed g base c.thread

namespace Collector.Follows

variable {Allowed : SweepRule} {g : Gathered} {c base next : Collector}

/-- While the thread is outside its lock the main thread reads the last generation. -/
theorem figures (follows : c.Follows Allowed g base) (outside : c.lock ≠ .collector) :
    c.sys = base.sys ∧ c.generation = base.generation ∧
      SameForMain base.proc { c.proc with lastScanMs := base.proc.lastScanMs } := by
  have unlocked : c.thread.holdsLock = false := by
    have locked := follows.locked
    rw [Collector.Locked] at locked
    simpa using mt locked.mpr outside
  have ahead := follows.ahead
  have even (same : c.Even base) : c.sys = base.sys ∧ c.generation = base.generation ∧
      SameForMain base.proc { c.proc with lastScanMs := base.proc.lastScanMs } := by
    refine ⟨same.sys, same.generation, ?_⟩
    rw [same.proc]
    exact .refl _
  cases there : c.thread with
  | stamping w =>
      rw [there] at ahead
      exact even ahead.2.2
  | sweeping w point =>
      rw [there] at ahead
      obtain ⟨_, _, sys, generation, _, same⟩ := ahead
      exact ⟨sys, generation, same⟩
  | updating | publishing | bumping => rw [there] at unlocked; cases unlocked
  | _ =>
      rw [there] at ahead
      exact even ahead

end Collector.Follows

/-- The points from the start of a sweep to the count. -/
def ThreadPoint.making : ThreadPoint → Bool
  | .stamping _ | .sweeping _ _ | .updating | .publishing | .bumping => true
  | _ => false

/-- Being ahead is a matter of the figures and what was answered. -/
theorem Collector.Ahead.congr {Allowed : SweepRule} {g : Gathered}
    {c next base after : Collector} {point : ThreadPoint} (ahead : c.Ahead Allowed g base point)
    (same : next.Even c) (sameBase : after.Even base) : next.Ahead Allowed g after point := by
  obtain ⟨sys, proc, generation⟩ := same
  obtain ⟨baseSys, baseProc, baseGeneration⟩ := sameBase
  have even (level : c.Even base) : next.Even after :=
    ⟨sys.trans (level.sys.trans baseSys.symm), proc.trans (level.proc.trans baseProc.symm),
      generation.trans (level.generation.trans baseGeneration.symm)⟩
  cases point with
  | stamping w => exact ⟨ahead.1, baseProc ▸ ahead.2.1, even ahead.2.2⟩
  | sweeping | updating | publishing | bumping =>
      simpa only [Collector.Ahead, sys, proc, generation, baseSys, baseProc, baseGeneration]
        using ahead
  | _ => exact even ahead

/-- A step of the thread or the clock leaves the main thread's fields alone. -/
theorem CollectorStep.background_fields {c next : Collector} {label : CollectorLabel}
    (step : CollectorStep c label next) (own : label.byMain = false) :
    next.running = c.running ∧ next.stopping = c.stopping := by
  cases step <;> first | exact ⟨rfl, rfl⟩ | cases own

/-- Where the thread gets ahead, and by what. -/
theorem CollectorStep.ahead {Allowed : SweepRule} {g : Gathered} {c base next : Collector}
    {label : CollectorLabel} (step : CollectorStep c label next) (own : label.byMain = false)
    (counts : label ≠ .bump) (begins : ∀ w, label = .startSweep w → Allowed w c.proc)
    (ahead : c.Ahead Allowed g base c.thread) :
    next.Ahead Allowed (g.add label) base next.thread := by
  cases step with
  | startSweep there going =>
      rw [there] at ahead
      have allowed := begins _ rfl
      rw [ahead.proc] at allowed
      exact ⟨rfl, allowed, ahead.sys, ahead.proc, ahead.generation⟩
  | stamp there =>
      rw [there] at ahead
      obtain ⟨begun, allowed, even⟩ := ahead
      have proc : base.proc = c.proc := even.proc.symm
      exact ⟨begun, allowed, even.sys, even.generation, by rw [proc]; rfl,
        by rw [proc]; exact .refl _⟩
  | sweep there step =>
      rw [there] at ahead
      obtain ⟨begun, allowed, sys, generation, result, same⟩ := ahead
      refine ⟨begun, allowed, sys, generation, (sweepStep_result step).trans result, ?_⟩
      have kept := (sweepStep_same step).1
      exact ⟨kept.processes.trans same.processes, kept.count.trans same.count,
        kept.events.trans same.events, rfl⟩
  | relock there free =>
      rw [there] at ahead
      obtain ⟨begun, allowed, sys, generation, result, _⟩ := ahead
      exact ⟨_, begun, allowed, sys, generation, result⟩
  | updateSys there =>
      rw [there] at ahead
      obtain ⟨w, begun, allowed, sys, generation, proc⟩ := ahead
      exact ⟨w, _, begun, allowed, rfl, by rw [sys], generation, proc⟩
  | publish there =>
      rw [there] at ahead
      obtain ⟨w, reads, begun, allowed, read, sys, generation, proc⟩ := ahead
      refine ⟨⟨w, reads, _⟩, ?_, allowed, sys, generation, by rw [update, ← proc]⟩
      simp [Gathered.refresh?, Gathered.add, begun, read]
  | bump => exact absurd rfl counts
  | acquire | release | request | setInterval | stop | join => cases own
  | tick => exact ahead.congr ⟨rfl, rfl, rfl⟩ ⟨rfl, rfl, rfl⟩
  | reacquire there free =>
      rw [there] at ahead
      cases ‹Bool› <;> exact ahead.congr ⟨rfl, rfl, rfl⟩ ⟨rfl, rfl, rfl⟩
  | readClock there | lock there | sleep there | wake there | timeout there | leaveWait there
  | giveUp there | unlock there =>
      rw [there] at ahead
      exact ahead.congr ⟨rfl, rfl, rfl⟩ ⟨rfl, rfl, rfl⟩

/-- A step of the thread, or of the clock: a whole generation for the count, and nothing
    for the others. -/
theorem CollectorStep.followed {Allowed : SweepRule} {g : Gathered} {c base next : Collector}
    {label : CollectorLabel} (step : CollectorStep c label next) (own : label.byMain = false)
    (begins : ∀ w, label = .startSweep w → Allowed w c.proc) (follows : c.Follows Allowed g base) :
    (label ≠ .bump ∧ next.Follows Allowed (g.add label) base) ∨
      label = .bump ∧ ∃ r, g.refresh? = some r ∧ base.lock = .free ∧
        Allowed r.sweep base.proc ∧ next.Follows Allowed g (base.refreshed r) := by
  have locked := CollectorStep.locked step follows.locked
  have lock := (CollectorStep.background step follows.locked own).1
  obtain ⟨running, stopping⟩ := CollectorStep.background_fields step own
  have held : base.lock = if next.lock = .main then .main else .free := by
    simp only [lock]
    exact follows.held
  by_cases counts : label = .bump
  · right
    subst counts
    cases step with
    | bump there =>
        have ahead := follows.ahead
        rw [there] at ahead
        obtain ⟨r, gathered, allowed, sys, generation, proc⟩ := ahead
        have inside : c.lock = .collector := follows.locked.mpr (by rw [there]; rfl)
        refine ⟨rfl, r, gathered, ?_, allowed, locked, held, follows.running, follows.stopping,
          follows.thread, ⟨sys, proc, ?_⟩⟩
        · rw [follows.held, inside]
          rfl
        · simp only [Collector.refreshed, generation]
  · left
    exact ⟨counts, locked, held, follows.running.trans running.symm,
      follows.stopping.trans stopping.symm, follows.thread,
      CollectorStep.ahead step own counts begins follows.ahead⟩

/-- A step the main thread takes part in is the same step of the one without a thread. -/
theorem CollectorStep.followed_main {Allowed : SweepRule} {g : Gathered}
    {c base next : Collector} {label : CollectorLabel} (step : CollectorStep c label next)
    (own : label.byMain = true) (follows : c.Follows Allowed g base) :
    ∃ after, CollectorStep base label after ∧ next.Follows Allowed g after := by
  have locked := CollectorStep.locked step follows.locked
  obtain ⟨_, held, running, stopping, thread, ahead⟩ := follows
  cases step with
  | acquire free =>
      exact ⟨_, .acquire (held.trans (by rw [free]; rfl)), locked, rfl, running, stopping, thread,
        ahead.congr ⟨rfl, rfl, rfl⟩ ⟨rfl, rfl, rfl⟩⟩
  | release inside =>
      exact ⟨_, .release (held.trans (if_pos inside)), locked, rfl, running, stopping, thread,
        ahead.congr ⟨rfl, rfl, rfl⟩ ⟨rfl, rfl, rfl⟩⟩
  | request inside =>
      exact ⟨_, .request (held.trans (if_pos inside)), locked, held, running, stopping, thread,
        ahead.congr ⟨rfl, rfl, rfl⟩ ⟨rfl, rfl, rfl⟩⟩
  | setInterval inside =>
      exact ⟨_, .setInterval (held.trans (if_pos inside)), locked, held, running, stopping, thread,
        ahead.congr ⟨rfl, rfl, rfl⟩ ⟨rfl, rfl, rfl⟩⟩
  | stop inside =>
      exact ⟨_, .stop (held.trans (if_pos inside)), locked, held, running, rfl, thread,
        ahead.congr ⟨rfl, rfl, rfl⟩ ⟨rfl, rfl, rfl⟩⟩
  | join letGo stopped there =>
      have out : base.lock ≠ .main := by
        rw [held, if_neg letGo]
        decide
      exact ⟨_, .join out (stopping.trans stopped) thread, locked, held, rfl, stopping, thread,
        ahead.congr ⟨rfl, rfl, rfl⟩ ⟨rfl, rfl, rfl⟩⟩
  | _ => cases own

/-! ## The main thread beside its serial self -/

/-- The program with another collector. -/
def MainLoop.beside (s : MainLoop) (base : Collector) : MainLoop := { s with col := base }

namespace MainLoop

theorem runCommand_beside (s : MainLoop) (base : Collector) (command : Command) :
    (s.beside base).runCommand command = (s.runCommand command).beside base := by
  cases command with
  | enter =>
      by_cases list : s.ui.viewMode = .processList <;> simp [runCommand, beside, list]
  | signal action =>
      by_cases list : s.ui.viewMode = .processList <;> by_cases none : s.ui.selectedPid ≤ 0 <;>
        simp [runCommand, beside, list, none]
  | resume =>
      by_cases list : s.ui.viewMode = .processList ∧ 0 < s.ui.selectedPid <;>
        simp [runCommand, beside, list]
  | _ => rfl

theorem handleKey_beside (s : MainLoop) (base : Collector) (ch : Int) :
    (s.beside base).handleKey ch = (s.handleKey ch).beside base := by
  unfold handleKey
  cases commandOf ch with
  | none => rfl
  | some command => exact runCommand_beside { s with needsRedraw := true } base command

theorem afterConfirm_beside (s : MainLoop) (base : Collector) (action : Action) (pid : Int)
    (confirmed : Bool) : (s.beside base).afterConfirm action pid confirmed =
      (s.afterConfirm action pid confirmed).beside base := by
  cases confirmed <;> rfl

theorem compareGenerations_beside (s : MainLoop) {base : Collector}
    (same : s.col.generation = base.generation) :
    (s.beside base).compareGenerations = s.compareGenerations.beside base := by
  by_cases stale : base.generation ≠ s.drawnGeneration <;>
    simp [compareGenerations, beside, same, stale]

end MainLoop

/-- Apart from the scan time a draw does not see it. -/
theorem Ui.draw_withoutScan (mem : DrawMemory) (width height : Int) (ui : Ui) (sys : SystemMonitor)
    {m other : ProcessMonitor} (same : SameForMain m { other with lastScanMs := m.lastScanMs }) :
    (ui.draw mem width height sys other).1 = (ui.draw mem width height sys m).1 ∧
      (ui.draw mem width height sys other).2.withoutScan =
        (ui.draw mem width height sys m).2.withoutScan := by
  have stamped := same.draw mem width height ui sys
  rw [← stamped]
  exact ⟨rfl, rfl⟩

theorem Gathered.serial?_background {g : Gathered} {label : CollectorLabel}
    (counts : label ≠ .bump) : g.serial? (.background label) = none := by
  cases label <;> first | rfl | exact absurd rfl counts

/-- A step of the program is answered by the serial program. -/
theorem MainStep.serial {Allowed : SweepRule} {g : Gathered} {s next : MainLoop}
    {label : MainLabel} {base : Collector} (step : MainStep s label next) (synced : s.Synced)
    (begins : SweepsBy Allowed s label next) (follows : s.col.Follows Allowed g base) :
    ∃ after, (serialSystem Allowed).Run (s.beside base) (g.serial? label).toList
        (next.beside after) ∧ next.col.Follows Allowed (g.see label) after := by
  cases step with
  | background own step =>
      have begins w (same : _ = CollectorLabel.startSweep w) : Allowed w s.col.proc :=
        begins w (congrArg _ same)
      rcases CollectorStep.followed step own begins follows with
        ⟨counts, next⟩ | ⟨rfl, r, known, free, allowed, next⟩
      · refine ⟨base, ?_, next⟩
        rw [Gathered.serial?_background counts]
        exact .refl _
      · refine ⟨_, ?_, next⟩
        rw [Gathered.serial?, known]
        exact .single (.refresh free allowed)
  | interrupt => exact ⟨base, .single (.main rfl .interrupt), follows⟩
  | test there =>
      refine ⟨base, .single (.main rfl ?_), follows⟩
      have test : MainStep (s.beside base) .test _ := .test there
      have running : (s.beside base).col.running = s.col.running := follows.running
      rw [running] at test
      exact test
  | key there =>
      rename_i ch
      refine ⟨base, .single (.main rfl ?_), ?_⟩
      · rw [← s.handleKey_beside base ch]
        exact .key there
      · rw [(s.handleKey_kept ch).col]
        exact follows
  | lock waiting step =>
      obtain ⟨after, answer, next⟩ := CollectorStep.followed_main step rfl follows
      exact ⟨after, .single (.main rfl (.lock waiting answer)), next⟩
  | call there step =>
      rename_i api _
      obtain ⟨after, answer, next⟩ := CollectorStep.followed_main step (by cases api <;> rfl) follows
      exact ⟨after, .single (.main rfl (.call there answer)), next⟩
  | returned there step =>
      rename_i api _
      obtain ⟨after, answer, next⟩ := CollectorStep.followed_main step rfl follows
      refine ⟨after, .single (.main rfl ?_), by cases api <;> exact next⟩
      have returned : MainStep (s.beside base) .unlock _ := .returned there answer
      cases api <;> exact returned
  | find there =>
      rename_i action pid
      refine ⟨base, .single (.main rfl ?_), follows⟩
      have inside := synced.held there rfl
      obtain ⟨_, _, same⟩ := follows.figures (by rw [inside]; decide)
      have found : s.col.proc.find pid = base.proc.find pid := same.find pid
      have find : MainStep (s.beside base) (.find (base.proc.find pid)) _ := .find there
      rw [found]
      convert find using 1
      simp only [MainLoop.afterFind, MainLoop.beside, found]
  | looked there step =>
      rename_i action pid name _
      obtain ⟨after, answer, next⟩ := CollectorStep.followed_main step rfl follows
      refine ⟨after, .single (.main rfl ?_), by cases name <;> exact next⟩
      have looked : MainStep (s.beside base) .unlock _ := .looked there answer
      cases name <;> exact looked
  | confirm there =>
      rename_i action pid name opened ch
      refine ⟨base, .single (.main rfl ?_), ?_⟩
      · have confirm : MainStep (s.beside base) (.confirm (confirmMsg action pid name) opened ch) _ :=
          .confirm there
        rwa [s.afterConfirm_beside base] at confirm
      · unfold MainLoop.afterConfirm
        split <;> exact follows
  | kill there made => exact ⟨base, .single (.main rfl (.kill there made)), follows⟩
  | refused there none => exact ⟨base, .single (.main rfl (.refused there none)), follows⟩
  | compare there =>
      have inside := synced.held there rfl
      obtain ⟨_, generation, _⟩ := follows.figures (by rw [inside]; decide)
      refine ⟨base, .single (.main rfl ?_), ?_⟩
      · have compare : MainStep (s.beside base) .compare _ := .compare there
        rwa [s.compareGenerations_beside generation] at compare
      · unfold MainLoop.compareGenerations
        split <;> exact follows
  | frame there due =>
      rename_i mem width height
      have inside := synced.held there rfl
      obtain ⟨sys, _, same⟩ := follows.figures (by rw [inside]; decide)
      obtain ⟨ui, shown⟩ := s.ui.draw_withoutScan mem width height s.col.sys same
      have frame : MainStep (s.beside base) (.frame (s.ui.draw mem width height base.sys base.proc).2)
          { s with
            col := base
            ui := (s.ui.draw mem width height base.sys base.proc).1
            needsRedraw := false
            main := .painted } := .frame there due
      rw [← sys, ← ui] at frame
      refine ⟨base, .single ?_, follows⟩
      have answer : SerialStep Allowed _ _ _ := .main rfl frame
      rwa [MainLabel.withoutScan, ← shown] at answer
  | skip there clean => exact ⟨base, .single (.main rfl (.skip there clean)), follows⟩
  | release there step =>
      obtain ⟨after, answer, next⟩ := CollectorStep.followed_main step rfl follows
      exact ⟨after, .single (.main rfl (.release there answer)), next⟩
  | join there step =>
      obtain ⟨after, answer, next⟩ := CollectorStep.followed_main step rfl follows
      exact ⟨after, .single (.main rfl (.join there answer)), next⟩

/-! ## Whole runs -/

def SerialLabel.refresh? : SerialLabel → Option Refresh
  | .refresh r => some r
  | .main _ => none

/-- The generations made in a run, in the order they were counted. -/
def refreshes (trace : List MainLabel) : List Refresh :=
  (serialTrace trace).filterMap SerialLabel.refresh?

theorem refreshes_snoc (trace : List MainLabel) (label : MainLabel) :
    refreshes (trace ++ [label]) = refreshes trace ++
      ((gathered trace).serial? label).toList.filterMap SerialLabel.refresh? := by
  rw [refreshes, serialTrace_snoc, List.filterMap_append, refreshes]

theorem published_append (first second : List MainLabel) :
    published (first ++ second) = published first + published second := by
  rw [published, List.filterMap_append, List.countP_append, published, published]

/-- Every count of the thread is a generation of the serial run, and nothing else is. -/
theorem MainStep.refreshes_counted {Allowed : SweepRule} {g : Gathered} {s next : MainLoop}
    {label : MainLabel} {base : Collector} (step : MainStep s label next)
    (follows : s.col.Follows Allowed g base) :
    ((g.serial? label).toList.filterMap SerialLabel.refresh?).length = published [label] := by
  cases step with
  | background own step =>
      rename_i label _
      by_cases counts : label = .bump
      · subst counts
        cases step with
        | bump there =>
            have ahead := follows.ahead
            rw [there] at ahead
            obtain ⟨r, known, _⟩ := ahead
            rw [Gathered.serial?, known]
            rfl
      · rw [Gathered.serial?_background counts]
        cases label <;> first | rfl | exact absurd rfl counts
  | call => cases ‹ApiCall› <;> rfl
  | _ => rfl

theorem serial_answers (Allowed : SweepRule) :
    (mainSystem.restrict (SweepsBy Allowed)).Answers (serialSystem Allowed)
      fun trace s answered a => answered = serialTrace trace ∧
        (refreshes trace).length = published trace ∧
        ∃ base, a = s.beside base ∧ s.col.Follows Allowed (gathered trace) base where
  init := by
    intro s start
    refine ⟨{ s with col := s.col.threadless }, ⟨s, start, rfl⟩, rfl, rfl, _, rfl, ?_⟩
    obtain ⟨_, _, _, _, _, _, _, _, _, rfl⟩ := start
    exact ⟨by simp [Collector.Locked, MainLoop.start, Collector.start, ThreadPoint.holdsLock], rfl,
      rfl, rfl, rfl, rfl, rfl, rfl⟩
  step := by
    rintro trace s label next _ _ earlier ⟨step, begins⟩ _ ⟨rfl, count, base, rfl, follows⟩
    have synced := main_synced earlier.unrestrict
    obtain ⟨after, run, next⟩ := MainStep.serial step synced begins follows
    refine ⟨_, _, run, (serialTrace_snoc trace label).symm, ?_, after, rfl, ?_⟩
    · rw [refreshes_snoc, published_append, List.length_append, count,
        MainStep.refreshes_counted step follows]
    · rwa [gathered_snoc]

/-- Every run of the program is, apart from the scan times it shows, a run of the program
    without a second thread: the main thread goes through the same states, reads the same
    keys, shows the same frames and makes the same calls, and has the figures of the last
    whole generation whenever it holds the lock. Every generation counted is made exactly
    once. What the sweeps satisfied when they began, they satisfy where they count. -/
theorem program_serial (Allowed : SweepRule) {trace : List MainLabel} {s : MainLoop}
    (history : (mainSystem.restrict (SweepsBy Allowed)).Trace trace s) :
    ∃ base, (serialSystem Allowed).Trace (serialTrace trace) { s with col := base } ∧
      (refreshes trace).length = published trace ∧
      (s.col.lock = .main → s.col.sys = base.sys ∧ s.col.generation = base.generation ∧
        SameForMain base.proc { s.col.proc with lastScanMs := base.proc.lastScanMs }) ∧
      (s.col.thread.making = false → s.col.Even base) := by
  obtain ⟨_, _, serial, rfl, count, base, rfl, follows⟩ := (serial_answers Allowed).trace history
  refine ⟨base, serial, count, fun held => follows.figures (by rw [held]; decide), fun rest => ?_⟩
  have ahead := follows.ahead
  cases there : s.col.thread <;> rw [there] at ahead rest <;> first | exact ahead | cases rest

/-! ## A generation after the first frame -/

section Cycle

variable {Allowed : SweepRule}

/-- The collector with sweeps that satisfy a rule when they begin. -/
def BeginsBy (Allowed : SweepRule) (c : Collector) (label : CollectorLabel) (_next : Collector) :
    Prop :=
  ∀ w, label = .startSweep w → Allowed w c.proc

theorem BeginsBy.other {c next : Collector} {label : CollectorLabel}
    (other : ∀ w, label ≠ .startSweep w) : BeginsBy Allowed c label next :=
  fun w same => absurd same (other w)

/-- The steps of the thread between two points of a sweep. -/
theorem sweeps_replicate {w : Sweep} {a b : SweepPoint × ProcessMonitor} (sweeps : Sweeps w a b)
    (c : Collector) :
    ∃ n, (collectorSystem.restrict (BeginsBy Allowed)).Run
      { c with thread := .sweeping w a.1, proc := a.2 } (List.replicate n .sweep)
      { c with thread := .sweeping w b.1, proc := b.2 } := by
  induction sweeps with
  | refl => exact ⟨0, .refl _⟩
  | tail _ step ih =>
      obtain ⟨n, run⟩ := ih
      refine ⟨n + 1, ?_⟩
      rw [List.replicate_succ']
      exact .snoc run ⟨.sweep rfl step, .other (by simp)⟩

/-- A wait that times out and a whole generation behind it. -/
def timedCycle (now : Timespec) (n : Nat) (r : Refresh) : List CollectorLabel :=
  [.sleep, .tick now, .timeout, .reacquire, .startSweep r.sweep, .stamp] ++
    List.replicate n .sweep ++ [.relock, .updateSys r.reads, .publish r.time, .bump]

theorem timedCycle_own (now : Timespec) (n : Nat) (r : Refresh) :
    ∀ label ∈ timedCycle now n r, label.byMain = false := by
  refine List.forall_mem_append.mpr ⟨List.forall_mem_append.mpr ⟨?_, ?_⟩, ?_⟩
  · simp [CollectorLabel.byMain]
  · intro label member
    rw [List.eq_of_mem_replicate member]
    rfl
  · simp [CollectorLabel.byMain]

theorem published_timedCycle (now : Timespec) (n : Nat) (r : Refresh) :
    published ((timedCycle now n r).map .background) = 1 := by
  have seen : ((timedCycle now n r).map MainLabel.background).filterMap MainLabel.collector? =
      timedCycle now n r := by
    rw [List.filterMap_map]
    exact List.filterMap_some
  rw [published, seen, timedCycle, List.countP_append, List.countP_append, List.countP_replicate]
  rfl

theorem timed_cycle {c : Collector} (rest : Resting c) {r : Refresh}
    (allowed : Allowed r.sweep c.proc) :
    ∃ now n d, (collectorSystem.restrict (BeginsBy Allowed)).Run c (timedCycle now n r) d ∧
      Resting d ∧ d.Even (c.refreshed r) := by
  obtain ⟨_, running, sys, proc, intervalMs, _, _, generation, _, last, clock⟩ := c
  obtain ⟨rfl, rfl, rfl, rfl⟩ := rest
  let deadline := addMs last intervalMs
  let now : Timespec := ⟨max clock.sec deadline.sec + 1, 0⟩
  have later : clock.NotAfter now := .inl (by simp only [now]; omega)
  have due : deadline.NotAfter now := .inl (by simp only [now]; omega)
  have begins : ∀ w, CollectorLabel.startSweep r.sweep = .startSweep w → Allowed w proc := by
    rintro _ ⟨⟩
    exact allowed
  let stamped : Collector :=
    ⟨.free, running, sys, proc, intervalMs, false, false, generation, .stamping r.sweep, now, now⟩
  obtain ⟨n, sweeps⟩ := sweeps_replicate (collect_sweeps r.sweep proc) stamped
  exact ⟨now, n, _, .append (.append
    (.cons ⟨.sleep rfl rfl rfl, .other (by simp)⟩ <| .cons ⟨.tick later, .other (by simp)⟩ <|
      .cons ⟨.timeout rfl due, .other (by simp)⟩ <| .cons ⟨.reacquire rfl rfl, .other (by simp)⟩ <|
      .cons ⟨.startSweep rfl rfl, begins⟩ <| .single ⟨.stamp rfl, .other (by simp)⟩) sweeps)
    (.cons ⟨.relock rfl rfl, .other (by simp)⟩ <| .cons ⟨.updateSys rfl, .other (by simp)⟩ <|
      .cons ⟨.publish rfl, .other (by simp)⟩ <| .single ⟨.bump rfl, .other (by simp)⟩),
    ⟨rfl, rfl, rfl, rfl⟩, rfl, rfl, rfl⟩

/-- While the main thread does nothing the collector keeps to the rule on its own. -/
theorem background_run_by {s : MainLoop} {labels : List CollectorLabel} {col : Collector}
    (run : (collectorSystem.restrict (BeginsBy Allowed)).Run s.col labels col)
    (own : ∀ label ∈ labels, label.byMain = false) :
    (mainSystem.restrict (SweepsBy Allowed)).Run s (labels.map .background)
      { s with col := col } := by
  refine run.induct (P := fun labels col => (∀ label ∈ labels, label.byMain = false) →
    (mainSystem.restrict (SweepsBy Allowed)).Run s (labels.map .background)
      { s with col := col }) (fun _ => .refl s) ?_ own
  rintro labels col label next _ ih ⟨step, begins⟩ own
  rw [List.map_append]
  refine .snoc (ih fun label member => own label (List.mem_append_left _ member)) ?_
  refine ⟨.background (own label (by simp)) step, fun w same => begins w ?_⟩
  exact MainLabel.background.inj same

theorem SweepsBy.other {s next : MainLoop} {label : MainLabel}
    (other : ∀ w, label ≠ .background (.startSweep w)) : SweepsBy Allowed s label next :=
  fun w same => absurd same (other w)

/-- While the main thread waits for a key the thread makes one generation, and then it is
    drawn. -/
theorem generation_frame {s : MainLoop} (there : s.main = .input) (free : s.col.lock = .free)
    (entry : s.col.thread = .entry) (going : s.col.stopping = false)
    (quiet : s.col.refreshRequested = false) {r : Refresh} (allowed : Allowed r.sweep s.col.proc) :
    ∃ labels shown later, (mainSystem.restrict (SweepsBy Allowed)).Run s
      (labels ++ [.frame shown]) later ∧ published labels = 1 := by
  let started : Collector :=
    { s.col with last := s.col.clock, lock := .collector, thread := .testing }
  obtain ⟨now, n, d, cycle, rest, _⟩ :=
    timed_cycle (c := started) ⟨rfl, rfl, going, quiet⟩ allowed
  let asleep : Collector := { d with lock := .free, thread := .asleep (addMs d.last d.intervalMs) }
  have thread : (collectorSystem.restrict (BeginsBy Allowed)).Run s.col
      ([.readClock, .lock] ++ timedCycle now n r ++ [.sleep]) asleep :=
    .append (.append (.cons ⟨.readClock entry, .other (by simp)⟩ <|
      .single ⟨.lock rfl free, .other (by simp)⟩) cycle)
      (.single ⟨.sleep rest.thread rest.going rest.quiet, .other (by simp)⟩)
  let waiting : MainLoop := { s with col := asleep }
  let resized : MainLoop := { waiting with needsRedraw := true, main := .redraw }
  have key : MainStep waiting (.key 410) resized := .key there
  obtain ⟨later, frame⟩ :=
    redraw_frame (s := resized) rfl rfl rfl ⟨true, true, ⟨true, none⟩⟩ 100 40
  let shown := (resized.ui.draw ⟨true, true, ⟨true, none⟩⟩ 100 40 asleep.sys asleep.proc).2
  have after : mainSystem.Run waiting ([.key 410, .lock, .compare] ++ [.frame shown]) later :=
    .cons key frame
  have own : ∀ label ∈ [.readClock, .lock] ++ timedCycle now n r ++ [.sleep],
      CollectorLabel.byMain label = false :=
    List.forall_mem_append.mpr ⟨List.forall_mem_append.mpr
      ⟨by simp [CollectorLabel.byMain], timedCycle_own now n r⟩, by simp [CollectorLabel.byMain]⟩
  have drawn : (mainSystem.restrict (SweepsBy Allowed)).Run waiting _ later :=
    after.restrict (by simp [SweepsBy])
  have whole := (background_run_by thread own).append drawn
  rw [← List.append_assoc] at whole
  refine ⟨_, shown, later, whole, ?_⟩
  rw [List.map_append, List.map_append, published_append, published_append, published_append,
    published_timedCycle]
  rfl

end Cycle

/-- The first frame, a generation, and the frame that shows it. -/
theorem program_serial_example :
    ∃ trace s base, published trace = 1 ∧ mainSystem.Trace trace s ∧
      (serialSystem fun _ _ => True).Trace (serialTrace trace) { s with col := base } ∧
      (refreshes trace).length = 1 := by
  let refresh : Refresh := ⟨exampleSweep, exampleReads, exampleStamps⟩
  have drawn : ∃ labels shown later, (mainSystem.restrict (SweepsBy fun _ _ => True)).Run
      exampleInput (labels ++ [.frame shown]) later ∧ published labels = 1 :=
    generation_frame (r := refresh) rfl rfl rfl rfl rfl trivial
  obtain ⟨labels, shown, later, run, count⟩ := drawn
  obtain ⟨start, initial, first⟩ := example_painted
  have before : (mainSystem.restrict (SweepsBy fun _ _ => True)).Run start _ exampleInput :=
    (first.append example_input).restrict (by simp [SweepsBy])
  let front : List MainLabel :=
    [.test, .key (-1), .lock, .compare, .frame exampleDraw.2] ++ [.unlock, .test]
  have history : (mainSystem.restrict (SweepsBy fun _ _ => True)).Trace
      (front ++ (labels ++ [.frame shown])) later := ⟨start, initial, before.append run⟩
  obtain ⟨base, serial, counted, _⟩ := program_serial _ history
  have one : published (front ++ (labels ++ [.frame shown])) = 1 := by
    rw [published_append, published_append labels, count]
    rfl
  exact ⟨_, later, base, one, history.unrestrict, serial, counted.trans one⟩

end KernelMonitor
