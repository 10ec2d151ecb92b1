import KernelMonitor.Library.ReplayLog
import KernelMonitor.SampleOrder

/-! # The event log

`detect_changes` compares two sorted arrays with two binary-search loops. What it
pushes is the symmetric difference of the two samples, so the untruncated history
of a PID replays whether the PID is in the sample. The monitor keeps the last
hundred events of that history.
-/

namespace KernelMonitor

open Library

/-- The record `push_event` stores. -/
def Event.make (timestamp : Int) (type : EventType) (pid : Int) (name description : Bytes) :
    Event :=
  ⟨timestamp, type, pid, snprintf commMax name, snprintf eventDescMax description⟩

def createdEvent (time : Stamps) (proc : ProcessInfo) : Event :=
  .make (time .processCreated proc.pid) .processCreated proc.pid proc.name
    (text "Process created")

def terminatedEvent (time : Stamps) (proc : ProcessInfo) : Event :=
  .make (time .processTerminated proc.pid) .processTerminated proc.pid proc.name
    (text "Process terminated")

/-- The events one publish pushes, in order. -/
def changes (time : Stamps) (m : ProcessMonitor) : List Event :=
  (m.built.filter fun proc => findIn m.processes.cells m.count proc.pid = none).map
      (createdEvent time) ++
    (m.sample.filter fun proc => findIn m.incoming.cells m.incomingCount proc.pid = none).map
      (terminatedEvent time)

/-! ## What a publish pushes -/

theorem detectCreated_eq (time : Stamps) (m : ProcessMonitor) (proc : ProcessInfo) :
    detectCreated time m proc =
      if findIn m.processes.cells m.count proc.pid = none then
        { m with events := pushWindow maxEvents m.events (createdEvent time proc) }
      else m := by
  unfold detectCreated
  cases findIn m.processes.cells m.count proc.pid with
  | none => rfl
  | some i => rfl

theorem detectTerminated_eq (time : Stamps) (m : ProcessMonitor) (proc : ProcessInfo) :
    detectTerminated time m proc =
      if findIn m.incoming.cells m.incomingCount proc.pid = none then
        { m with events := pushWindow maxEvents m.events (terminatedEvent time proc) }
      else m := by
  unfold detectTerminated
  cases findIn m.incoming.cells m.incomingCount proc.pid with
  | none => rfl
  | some i => rfl

/-- A loop that pushes an event for some of the entries, chosen by parts of the
    monitor that pushing leaves alone. -/
theorem foldl_push {step : ProcessMonitor → ProcessInfo → ProcessMonitor}
    (chosen : ProcessInfo → Prop) [DecidablePred chosen] {event : ProcessInfo → Event}
    {m : ProcessMonitor}
    (steps : ∀ events proc, step { m with events := events } proc =
      if chosen proc then { m with events := pushWindow maxEvents events (event proc) }
      else { m with events := events })
    (procs : List ProcessInfo) (events : List Event) :
    procs.foldl step { m with events := events } =
      { m with
        events := ((procs.filter chosen).map event).foldl (pushWindow maxEvents) events } := by
  induction procs generalizing events with
  | nil => rfl
  | cons proc procs ih =>
      rw [List.foldl_cons, steps, List.filter_cons]
      by_cases picked : chosen proc
      · simpa only [picked, if_true, decide_true, List.map_cons, List.foldl_cons] using ih _
      · simpa only [picked, if_false, decide_false, Bool.false_eq_true] using ih _

/-- `detect_changes` is a row of pushes. -/
theorem detectChanges_eq (time : Stamps) (m : ProcessMonitor) :
    detectChanges time m =
      { m with events := (changes time m).foldl (pushWindow maxEvents) m.events } := by
  have created : m.built.foldl (detectCreated time) m = _ :=
    foldl_push (fun proc => findIn m.processes.cells m.count proc.pid = none)
      (fun events proc => detectCreated_eq time { m with events := events } proc)
      m.built m.events
  have terminated events : m.sample.foldl (detectTerminated time) { m with events := events } = _ :=
    foldl_push (fun proc => findIn m.incoming.cells m.incomingCount proc.pid = none)
      (fun events proc => detectTerminated_eq time { m with events := events } proc)
      m.sample events
  rw [detectChanges, created, changes, List.foldl_append]
  exact terminated _

theorem publish_events (time : Stamps) (m : ProcessMonitor) :
    (publish time m).events = (changes time m).foldl (pushWindow maxEvents) m.events := by
  rw [publish, detectChanges_eq]

/-! ## Per process -/

/-- The types of the events about one PID, in order. -/
def typesOf (pid : Int) (events : List Event) : List EventType :=
  (events.filter fun event => event.pid = pid).map Event.type

theorem typesOf_append (pid : Int) (first second : List Event) :
    typesOf pid (first ++ second) = typesOf pid first ++ typesOf pid second := by
  rw [typesOf, List.filter_append, List.map_append, typesOf, typesOf]

theorem typesOf_cons (pid : Int) (event : Event) (rest : List Event) :
    typesOf pid (event :: rest) =
      (if event.pid = pid then [event.type] else []) ++ typesOf pid rest := by
  unfold typesOf
  rw [List.filter_cons]
  by_cases same : event.pid = pid <;> simp [same]

/-- One loop of `detect_changes` writes about a PID at most once. -/
theorem typesOf_picked {items : List ProcessInfo} (event : ProcessInfo → Event) {type : EventType}
    (chosen : Int → Prop) [DecidablePred chosen]
    (shape : ∀ proc, (event proc).pid = proc.pid ∧ (event proc).type = type)
    (distinct : (items.map ProcessInfo.pid).Nodup) (pid : Int) :
    typesOf pid ((items.filter fun proc => chosen proc.pid).map event) =
      if pid ∈ items.map ProcessInfo.pid ∧ chosen pid then [type] else [] := by
  induction items with
  | nil => simp [typesOf]
  | cons proc items ih =>
      obtain ⟨apart, distinct⟩ := List.nodup_cons.mp distinct
      have rest := ih distinct
      simp only [List.map_cons, List.mem_cons, List.filter_cons]
      by_cases here : proc.pid = pid
      · rw [here] at apart
        simp only [apart, false_and, if_false] at rest
        by_cases picked : chosen pid
        · simp [here, picked, typesOf_cons, shape, rest]
        · simp [here, picked, rest]
      · have other : ¬ pid = proc.pid := Ne.symm here
        by_cases picked : chosen proc.pid
        · simp only [picked, decide_true, if_true, List.map_cons, typesOf_cons, shape, here,
            if_false, List.nil_append, rest, other, false_or]
        · simp only [picked, decide_false, Bool.false_eq_true, if_false, rest, other, false_or]

/-- The events of one publish about a PID are what its coming or going calls for. -/
theorem typesOf_changes (time : Stamps) {m : ProcessMonitor} (valid : m.Valid) (pid : Int) :
    typesOf pid (changes time m) =
      turn .processCreated .processTerminated (pid ∈ m.sample.map ProcessInfo.pid)
        (pid ∈ m.built.map ProcessInfo.pid) := by
  have created := typesOf_picked (createdEvent time)
    (fun p => findIn m.processes.cells m.count p = none) (fun proc => ⟨rfl, rfl⟩)
    valid.builtSorted.nodup_keys pid
  have terminated := typesOf_picked (terminatedEvent time)
    (fun p => findIn m.incoming.cells m.incomingCount p = none) (fun proc => ⟨rfl, rfl⟩)
    valid.sampleSorted.nodup_keys pid
  have absent : findIn m.processes.cells m.count pid = none ↔
      pid ∉ m.sample.map ProcessInfo.pid :=
    findIn_none_iff valid.sampleSorted (valid.cells ▸ valid.count)
  have gone : findIn m.incoming.cells m.incomingCount pid = none ↔
      pid ∉ m.built.map ProcessInfo.pid :=
    findIn_none_iff valid.builtSorted (valid.scratch.cells ▸ valid.scratch.count)
  rw [changes, typesOf_append, created, terminated]
  simp only [absent, gone, turn]
  by_cases was : pid ∈ m.sample.map ProcessInfo.pid
  · simp only [was, not_true_eq_false, and_false, if_false, List.nil_append]
  · simp only [was, false_and, if_false, List.append_nil]

/-! ## The history of a run -/

/-- The state after a row of updates. -/
def runUpdates (m : ProcessMonitor) (trace : List Tick) : ProcessMonitor :=
  trace.foldl (fun m tick => update tick.sweep tick.time m) m

/-- Every event pushed since `km_process_monitor_init`, from a run of updates. -/
def eventHistory : ProcessMonitor → List Tick → List Event
  | _, [] => []
  | m, tick :: rest =>
      changes tick.time (collect tick.sweep m) ++
        eventHistory (update tick.sweep tick.time m) rest

theorem eventHistory_append (m : ProcessMonitor) (before after : List Tick) :
    eventHistory m (before ++ after) =
      eventHistory m before ++ eventHistory (runUpdates m before) after := by
  induction before generalizing m with
  | nil => rfl
  | cons tick before ih =>
      simp only [List.cons_append, eventHistory, ih, runUpdates, List.foldl_cons,
        List.append_assoc]

/-- Updates are deterministic: the trace says which state a run is in. -/
theorem updates_state {host : Host} {Allowed : Sweep → ProcessMonitor → Prop} {trace : List Tick}
    {m : ProcessMonitor} (history : (updateSystem host Allowed).Trace trace m) :
    runUpdates (.init host) trace = m := by
  refine LabelledSystem.Trace.induct (P := fun trace m => runUpdates (.init host) trace = m)
    ?_ ?_ history
  · intro m start
    subst start
    rfl
  · intro trace m tick next _ same step
    obtain ⟨_, _, rfl⟩ := step
    rw [← same, runUpdates, List.foldl_append]
    rfl

/-- What one more update adds to the history. -/
theorem eventHistory_snoc {host : Host} {Allowed : Sweep → ProcessMonitor → Prop}
    {trace : List Tick} {m : ProcessMonitor} (history : (updateSystem host Allowed).Trace trace m)
    (tick : Tick) :
    eventHistory (.init host) (trace ++ [tick]) =
      eventHistory (.init host) trace ++ changes tick.time (collect tick.sweep m) := by
  rw [eventHistory_append, updates_state history, eventHistory, eventHistory, List.append_nil]

theorem history_replays {host : Host} {Allowed : Sweep → ProcessMonitor → Prop}
    {trace : List Tick} {m : ProcessMonitor} (history : (updateSystem host Allowed).Trace trace m)
    (pid : Int) :
    Replays .processCreated .processTerminated (typesOf pid (eventHistory (.init host) trace))
      (pid ∈ m.sample.map ProcessInfo.pid) := by
  refine LabelledSystem.Trace.induct (P := fun trace m =>
    Replays .processCreated .processTerminated (typesOf pid (eventHistory (.init host) trace))
      (pid ∈ m.sample.map ProcessInfo.pid)) ?_ ?_ history
  · intro m start
    subst start
    exact replays_nil (by simp [ProcessMonitor.sample, ProcessMonitor.init, Block.null])
  · intro trace m tick next earlier replays step
    obtain ⟨lawful, _, rfl⟩ := step
    have valid := collect_valid (updates_valid earlier) lawful
    rw [eventHistory_snoc earlier, typesOf_append, typesOf_changes _ valid, collect_sample,
      update, publish_sample]
    exact replays.turn (by decide)

/-- Each publish generates exactly one event for every PID that came or went, and
    nothing else. So over the whole history the events of a PID alternate, created
    first, and the PID is in the sample exactly when its last event is its
    creation. -/
theorem event_history_replays {host : Host} {trace : List Tick} {m : ProcessMonitor}
    (history : (updateSystem host fun _ _ => True).Trace trace m) :
    (∀ before tick, trace = before ++ [tick] →
      ∃ old events, (updateSystem host fun _ _ => True).Trace before old ∧
        eventHistory (.init host) trace = eventHistory (.init host) before ++ events ∧
        m.events = events.foldl (pushWindow maxEvents) old.events ∧
        ∀ pid, typesOf pid events =
          if pid ∈ m.sample.map ProcessInfo.pid ∧ pid ∉ old.sample.map ProcessInfo.pid then
            [.processCreated]
          else if pid ∈ old.sample.map ProcessInfo.pid ∧ pid ∉ m.sample.map ProcessInfo.pid then
            [.processTerminated]
          else []) ∧
      ∀ pid,
        Alternates .processCreated .processTerminated
            (typesOf pid (eventHistory (.init host) trace)) ∧
          (pid ∈ m.sample.map ProcessInfo.pid ↔
            (typesOf pid (eventHistory (.init host) trace)).getLast? = some .processCreated) := by
  refine ⟨?_, fun pid =>
    ⟨(history_replays history pid).alternates, (history_replays history pid).last⟩⟩
  rintro before tick rfl
  obtain ⟨start, initial, run⟩ := history
  obtain ⟨old, earlier, lawful, _, rfl⟩ := run.last
  have earlier := (⟨start, initial, earlier⟩ : (updateSystem host fun _ _ => True).Trace before old)
  have valid := collect_valid (updates_valid earlier) lawful
  obtain ⟨_, _, _, events, _⟩ := collect_frame tick.sweep old
  refine ⟨old, changes tick.time (collect tick.sweep old), earlier, eventHistory_snoc earlier tick,
    ?_, fun pid => ?_⟩
  · rw [update, publish_events, events]
  · rw [typesOf_changes _ valid, collect_sample, update, publish_sample, turn]

/-! The small machine once more: at the second update PID 3 is gone. -/

def exampleGone : Sweep :=
  { exampleSweep with
    dir := some [⟨text "12", true⟩]
    growIncoming := fun _ => some ⟨2, fun _ => .zero⟩ }

theorem exampleGone_lawful :
    exampleGone.Lawful (update exampleSweep exampleStamps (.init exampleHost)) where
  listing := by
    rintro _ ⟨rfl⟩
    exact ⟨by decide +kernel, by decide +kernel⟩
  fresh := by
    rintro pid _ ⟨rfl⟩
    decide +kernel

theorem example_departure :
    (updateSystem exampleHost fun _ _ => True).Trace
      ([] ++ [⟨exampleSweep, exampleStamps⟩] ++ [⟨exampleGone, exampleStamps⟩])
      (update exampleGone exampleStamps (update exampleSweep exampleStamps (.init exampleHost))) :=
  ⟨_, rfl, .snoc (.snoc (.refl _) ⟨exampleSweep_lawful, trivial, rfl⟩)
    ⟨exampleGone_lawful, trivial, rfl⟩⟩

theorem event_history_replays_example :
    typesOf 3 (eventHistory (.init exampleHost)
        [⟨exampleSweep, exampleStamps⟩, ⟨exampleGone, exampleStamps⟩]) =
      [.processCreated, .processTerminated] ∧
    ((3 : Int) ∈ (update exampleGone exampleStamps
        (update exampleSweep exampleStamps (.init exampleHost))).sample.map ProcessInfo.pid ↔
      (typesOf 3 (eventHistory (.init exampleHost)
        [⟨exampleSweep, exampleStamps⟩, ⟨exampleGone, exampleStamps⟩])).getLast? =
          some .processCreated) :=
  ⟨by decide +kernel, ((event_history_replays example_departure).2 3).2⟩

end KernelMonitor
