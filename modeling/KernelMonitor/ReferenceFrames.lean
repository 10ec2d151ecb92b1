import KernelMonitor.EventWindow
import KernelMonitor.SerialProgram
import KernelMonitor.SweepReference

/-! # What the frames show

The program shows a sequence of samples, the changes from each to the next, and the
figures of the system. That is all there is to it in the reference below, which has no
buffers, no event window, no threads and no lock. Every frame of every run is drawn from
the reference of the generations counted before it.
-/

namespace KernelMonitor

open Library

/-! ## The reference -/

/-- The last sample, every change there ever was, and the figures of the system. -/
structure Reference where
  samples : RefState
  log : List Event
  sys : SystemMonitor

/-- The changes from one sample to the next: what is new, and then what has gone. -/
def refChanges (time : Stamps) (old new : List ProcessInfo) : List Event :=
  (new.filter fun proc => proc.pid ∉ old.map ProcessInfo.pid).map (createdEvent time) ++
    (old.filter fun proc => proc.pid ∉ new.map ProcessInfo.pid).map (terminatedEvent time)

/-- One generation. -/
def Reference.refresh (c : Constants) (ref : Reference) (r : Refresh) : Reference where
  samples := refUpdate c ref.samples r.sweep
  log := ref.log ++ refChanges r.time ref.samples.sample (refUpdate c ref.samples r.sweep).sample
  sys := (ref.sys.update r.reads).2

/-- What the content window shows is taken from a reference: the whole sample in its
    order, an entry of it, its tree, or the newest changes that fit. -/
def Content.DrawnFrom (ref : Reference) (height : Int) : Content → Prop
  | .processList table _ _ _ => table = qsort compareByCpu ref.samples.sample
  | .processDetail info => info ∈ ref.samples.sample
  | .processTree tree => tree.processes.take tree.count = ref.samples.sample
  | .events shown => shown = (ref.log.rtake 20).reverse.take (height - 12).toNat
  | .outOfMemory | .noProcessSelected | .processGone => True

structure Frame.DrawnFrom (f : Frame) (ref : Reference) : Prop where
  system : f.system = ref.sys
  content : f.content.DrawnFrom ref f.height

theorem Frame.DrawnFrom.congr {f other : Frame} {ref : Reference} (drawn : f.DrawnFrom ref)
    (same : f.withoutScan = other.withoutScan) : other.DrawnFrom ref := by
  have system : f.system = other.system := congrArg (fun f => f.system) same
  have content : f.content = other.content := congrArg (fun f => f.content) same
  have height : f.height = other.height := congrArg (fun f => f.height) same
  exact ⟨system ▸ drawn.system, content ▸ height ▸ drawn.content⟩

/-! ## The monitor and the reference -/

/-- A valid monitor that holds what the reference holds. -/
structure Reference.Holds (c : Constants) (ref : Reference) (m : ProcessMonitor) : Prop where
  valid : m.Valid
  samples : Matches c m ref.samples
  events : m.events = ref.log.rtake maxEvents

theorem changes_eq_ref {m : ProcessMonitor} (valid : m.Valid) (time : Stamps) :
    changes time m = refChanges time m.sample m.built := by
  have processes : m.count ≤ m.processes.cells.length := valid.cells ▸ valid.count
  have incoming : m.incomingCount ≤ m.incoming.cells.length :=
    valid.scratch.cells ▸ valid.scratch.count
  unfold changes refChanges
  congr 2
  · refine List.filter_congr fun proc _ => ?_
    rw [decide_eq_decide]
    exact findIn_none_iff valid.sampleSorted processes
  · refine List.filter_congr fun proc _ => ?_
    rw [decide_eq_decide]
    exact findIn_none_iff valid.builtSorted incoming

theorem Reference.Holds.refresh {c : Constants} {ref : Reference} {m : ProcessMonitor}
    (holds : ref.Holds c m) {r : Refresh} (lawful : r.sweep.Lawful m)
    (allocates : r.sweep.Allocates) : (ref.refresh c r).Holds c (update r.sweep r.time m) := by
  obtain ⟨valid, samples, events⟩ := holds
  have collected := collect_valid valid lawful
  have next : Matches c (update r.sweep r.time m) (refUpdate c ref.samples r.sweep) :=
    update_matches valid (show (Tick.mk r.sweep r.time).sweep.Lawful m from lawful) allocates samples
  refine ⟨publish_valid r.time collected, next, ?_⟩
  obtain ⟨_, _, _, kept, _⟩ := collect_frame r.sweep m
  have before : (collect r.sweep m).sample = ref.samples.sample :=
    (collect_sample r.sweep m).trans samples.sample
  have built : (collect r.sweep m).built = (refUpdate c ref.samples r.sweep).sample := by
    rw [← next.sample, update, publish_sample]
  rw [update, publish_events, kept, events, changes_eq_ref collected, before, built]
  exact foldl_pushWindow (by decide) _ _

theorem rtake_recentEvents {m : ProcessMonitor} {log : List Event} {count : Nat}
    (events : m.events = log.rtake maxEvents) (few : count ≤ maxEvents) :
    m.recentEvents count = log.rtake count := by
  have last : m.recentEvents count = m.events.rtake count := by
    unfold ProcessMonitor.recentEvents List.rtake
    split
    · rename_i all
      rw [Nat.sub_eq_zero_of_le all, List.drop_zero]
    · rfl
  rw [last, events, rtake_rtake few]

theorem processTreeBuild_sample {mem : TreeMemory} {m : ProcessMonitor} {tree : ProcessTree}
    (built : processTreeBuild mem m = some tree) :
    tree.processes.take tree.count = m.sample := by
  unfold processTreeBuild at built
  split at built
  · cases built
    rfl
  · split at built
    · cases built
    · obtain ⟨_, _, rfl⟩ := Option.map_eq_some_iff.mp built
      rfl

theorem Reference.Holds.drawn {c : Constants} {ref : Reference} {m : ProcessMonitor}
    (holds : ref.Holds c m) (mem : DrawMemory) (width height : Int) (ui : Ui) :
    (ui.draw mem width height ref.sys m).2.DrawnFrom ref := by
  obtain ⟨_, samples, events⟩ := holds
  refine ⟨rfl, ?_⟩
  unfold Ui.draw Ui.drawContent
  cases view : ui.viewMode with
  | processList =>
      simp only [Ui.drawProcessList]
      cases reserveRows mem.sorted ui.sortedCapacity m.count with
      | none => trivial
      | some sortedCapacity =>
          dsimp only
          cases reserveRows mem.displayed ui.displayedCapacity m.count with
          | none => trivial
          | some displayedCapacity => exact congrArg _ samples.sample
  | processDetail =>
      simp only [Ui.drawProcessDetail]
      cases ui.displayedPids[ui.selectedIndex]? with
      | none => trivial
      | some pid =>
          dsimp only
          cases found : m.find pid with
          | none => trivial
          | some info =>
              have member := (ProcessMonitor.find_sound found).1
              rw [samples.sample] at member
              exact member
  | processTree =>
      simp only [Ui.drawProcessTree]
      cases built : processTreeBuild mem.tree m with
      | none => trivial
      | some tree => exact (processTreeBuild_sample built).trans samples.sample
  | events =>
      simp only [Ui.drawEvents, Content.DrawnFrom]
      rw [rtake_recentEvents events (by decide)]

/-! ## Runs of the serial program -/

/-- What the kernel and the allocator promise, and memory that does not run out. -/
def WellSwept : SweepRule := fun w m => w.Lawful m ∧ w.Allocates

theorem CollectorStep.byMain_keeps {c next : Collector} {label : CollectorLabel}
    (step : CollectorStep c label next) (main : label.byMain = true) :
    next.proc = c.proc ∧ next.sys = c.sys := by
  cases step <;> first | exact ⟨rfl, rfl⟩ | cases main

/-- A step of the main thread leaves the monitors alone. -/
theorem MainStep.own_keeps {s next : MainLoop} {label : MainLabel} (step : MainStep s label next)
    (own : label.isBackground = false) :
    next.col.proc = s.col.proc ∧ next.col.sys = s.col.sys := by
  have seen := MainStep.collector step
  cases known : label.collector? with
  | none =>
      rw [known] at seen
      exact ⟨congrArg _ seen, congrArg _ seen⟩
  | some inner =>
      rw [known] at seen
      refine CollectorStep.byMain_keeps seen ?_
      cases label with
      | background => cases own
      | call api => cases api <;> cases known <;> rfl
      | lock | unlock | join => cases known; rfl
      | _ => cases known

/-- The program has the figures of a reference. -/
structure Reference.ShownBy (c : Constants) (ref : Reference) (a : MainLoop) : Prop where
  holds : ref.Holds c a.col.proc
  sys : a.col.sys = ref.sys

theorem SerialStep.shown {c : Constants} {ref : Reference} {a next : MainLoop}
    {label : SerialLabel} (step : SerialStep WellSwept a label next) (shown : ref.ShownBy c a) :
    (label.refresh?.toList.foldl (Reference.refresh c) ref).ShownBy c next := by
  cases step with
  | main own step =>
      obtain ⟨proc, sys⟩ := MainStep.own_keeps step own
      exact ⟨by rw [proc]; exact shown.holds, by rw [sys]; exact shown.sys⟩
  | refresh free allowed =>
      refine ⟨shown.holds.refresh allowed.1 allowed.2, ?_⟩
      simp only [Collector.refreshed, shown.sys]
      rfl

theorem serial_shown {c : Constants} {ref : Reference} {start a : MainLoop}
    {labels : List SerialLabel} (run : (serialSystem WellSwept).Run start labels a)
    (shown : ref.ShownBy c start) :
    ((labels.filterMap SerialLabel.refresh?).foldl (Reference.refresh c) ref).ShownBy c a := by
  refine run.induct (P := fun labels a =>
    ((labels.filterMap SerialLabel.refresh?).foldl (Reference.refresh c) ref).ShownBy c a)
    shown ?_
  intro labels a label next _ earlier step
  have one : [label].filterMap SerialLabel.refresh? = label.refresh?.toList := by
    cases label <;> rfl
  rw [List.filterMap_append, List.foldl_append, one]
  exact SerialStep.shown step earlier

/-! ## Runs of the program -/

/-- Everything `main` finds before its loop. -/
structure Launch where
  host : Host
  cpuCount : Int
  seed : SystemReads
  first : Refresh
  width : Int
  height : Int
  clock : Timespec

namespace Launch

def start (launch : Launch) : MainLoop :=
  .start ((SystemMonitor.init launch.cpuCount launch.seed).update launch.first.reads).2
    (update launch.first.sweep launch.first.time (.init launch.host)) launch.width launch.height
    launch.clock

/-- The reference before the first update. -/
def blank (launch : Launch) : Reference :=
  ⟨.start, [], SystemMonitor.init launch.cpuCount launch.seed⟩

theorem blank_holds (launch : Launch) :
    launch.blank.Holds launch.host.constants (.init launch.host) where
  valid := init_valid launch.host
  samples := ⟨rfl, rfl, rfl⟩
  events := rfl

theorem start_init (launch : Launch) : mainSystem.Init launch.start :=
  ⟨_, _, _, _, _, _, _, _, _, rfl⟩

end Launch

/-- In every run in which the directory passes are lawful and memory does not run out,
    every frame is drawn from the reference of the generations made before it: the first
    one, and then one for each count of the thread. -/
theorem frames_show_reference (launch : Launch)
    (first : WellSwept launch.first.sweep (.init launch.host)) {before after : List MainLabel}
    {shown : Frame} {s : MainLoop}
    (run : (mainSystem.restrict (SweepsBy WellSwept)).Run launch.start
      (before ++ .frame shown :: after) s) :
    shown.DrawnFrom ((launch.first :: refreshes before).foldl
      (Reference.refresh launch.host.constants) launch.blank) := by
  obtain ⟨drawn, upTo, rest⟩ := run.split
  obtain ⟨_, ⟨step, _⟩, _⟩ := rest.first
  obtain ⟨_, _, _, _, ⟨_, _, start, rfl, begun⟩, serial, rfl, _, base, rfl, follows⟩ :=
    (serial_answers WellSwept).run launch.start_init upTo
  have beginning : (launch.blank.refresh launch.host.constants launch.first).ShownBy
      launch.host.constants (launch.start.beside start) := by
    have even : launch.start.col.Even start := begun.ahead
    refine ⟨?_, even.sys.symm⟩
    rw [MainLoop.beside, ← even.proc]
    exact launch.blank_holds.refresh first.1 first.2
  obtain ⟨holds, sys⟩ := serial_shown serial beginning
  have synced := main_synced ⟨_, launch.start_init, upTo.unrestrict⟩
  cases step with
  | @frame mem width height there due =>
      have inside := synced.held there rfl
      obtain ⟨same, _, sample⟩ := follows.figures (by rw [inside]; decide)
      have shown := holds.drawn mem width height drawn.ui
      obtain ⟨_, frame⟩ := drawn.ui.draw_withoutScan mem width height drawn.col.sys sample
      rw [← sys, MainLoop.beside, ← same] at shown
      exact shown.congr frame.symm

/-- The first frame, a generation, and the frame that shows it. -/
theorem frames_show_reference_example :
    ∃ (before : List MainLabel) (shown : Frame), published before = 1 ∧ shown.DrawnFrom
      (((⟨exampleSweep, exampleReads, exampleStamps⟩ : Refresh) :: refreshes before).foldl
        (Reference.refresh exampleHost.constants)
        ⟨.start, [], SystemMonitor.init 1 exampleReads⟩) := by
  let launch : Launch :=
    ⟨exampleHost, 1, exampleReads, ⟨exampleSweep, exampleReads, exampleStamps⟩, 100, 40, ⟨10, 0⟩⟩
  have lawful : WellSwept exampleSweep (.init exampleHost) :=
    ⟨exampleSweep_lawful, ⟨fun _ => rfl, fun _ => rfl⟩⟩
  have next : WellSwept exampleSecond exampleInput.col.proc :=
    ⟨exampleSecond_lawful, ⟨fun _ => rfl, fun _ => rfl⟩⟩
  obtain ⟨labels, shown, later, run, count⟩ :=
    generation_frame (s := exampleInput) (r := ⟨exampleSecond, exampleReads, exampleStamps⟩)
      rfl rfl rfl rfl rfl next
  have front : (mainSystem.restrict (SweepsBy WellSwept)).Run launch.start
      ([.test, .key (-1), .lock, .compare, .frame exampleDraw.2] ++ [.unlock, .test])
      exampleInput :=
    .restrict ((first_frame exampleSystem exampleSample 100 40 ⟨10, 0⟩
      ⟨true, true, ⟨true, none⟩⟩).append example_input) (by simp [SweepsBy])
  have whole := front.append run
  rw [← List.append_assoc] at whole
  refine ⟨_, shown, ?_, frames_show_reference launch lawful whole⟩
  rw [published_append, count]
  rfl

end KernelMonitor
