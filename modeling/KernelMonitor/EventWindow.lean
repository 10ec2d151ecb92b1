import KernelMonitor.Library.BoundedWindow
import KernelMonitor.EventLog

/-! # The event window as an array

`events` and `event_count` of `km_process_monitor`, cell by cell, next to the log of
every event ever pushed. The loops of `detect_changes` are the same whatever they
push to, so one statement about them compares the two.
-/

namespace KernelMonitor

open Library

/-- `events[KM_MAX_EVENTS]` and `event_count` -/
abbrev EventWindow : Type := BoundedWindow Event maxEvents

theorem maxEvents_pos : 0 < maxEvents := by decide

/-- A cell as `memset` leaves it. -/
def Event.zero : Event := ⟨0, .processCreated, 0, [], []⟩

/-- The window after `km_process_monitor_init`. -/
def EventWindow.init : EventWindow := .empty maxEvents .zero

/-- `push_event` -/
def EventWindow.pushEvent (window : EventWindow) (event : Event) : EventWindow :=
  window.push maxEvents_pos event

section Pushing

variable {Store : Type*} (push : Store → Event → Store)

/-- `detect_changes`, on anything events can be pushed to. -/
def detectInto (time : Stamps) (m : ProcessMonitor) (store : Store) : Store :=
  let store := m.built.foldl (fun store proc =>
    match findIn m.processes.cells m.count proc.pid with
    | some _ => store
    | none => push store (createdEvent time proc)) store
  m.sample.foldl (fun store proc =>
    match findIn m.incoming.cells m.incomingCount proc.pid with
    | some _ => store
    | none => push store (terminatedEvent time proc)) store

theorem foldl_filter_push (known : ProcessInfo → Option Nat) (event : ProcessInfo → Event)
    (procs : List ProcessInfo) (store : Store) :
    procs.foldl (fun store proc =>
        match known proc with
        | some _ => store
        | none => push store (event proc)) store =
      ((procs.filter fun proc => known proc = none).map event).foldl push store := by
  induction procs generalizing store with
  | nil => rfl
  | cons proc procs ih =>
      rw [List.foldl_cons, List.filter_cons]
      cases found : known proc with
      | none => simp [ih]
      | some i => simp [ih]

/-- What is pushed does not depend on where it goes. -/
theorem detectInto_eq (time : Stamps) (m : ProcessMonitor) (store : Store) :
    detectInto push time m store = (changes time m).foldl push store := by
  rw [detectInto, foldl_filter_push push fun proc => findIn m.processes.cells m.count proc.pid,
    foldl_filter_push push fun proc => findIn m.incoming.cells m.incomingCount proc.pid, changes,
    List.foldl_append]

end Pushing

/-! ## Runs with their log -/

/-- A monitor, its window as an array, and every event pushed since it was
    initialised. -/
structure LoggedMonitor where
  monitor : ProcessMonitor
  window : EventWindow
  generated : List Event

namespace LoggedMonitor

def init (host : Host) : LoggedMonitor := ⟨.init host, .init, []⟩

def collected (w : Sweep) (s : LoggedMonitor) : LoggedMonitor :=
  { s with monitor := collect w s.monitor }

def published (time : Stamps) (s : LoggedMonitor) : LoggedMonitor where
  monitor := publish time s.monitor
  window := detectInto EventWindow.pushEvent time s.monitor s.window
  generated := detectInto (fun log event => log ++ [event]) time s.monitor s.generated

def apply : MonitorCall → LoggedMonitor → LoggedMonitor
  | .collect w, s => s.collected w
  | .publish time, s => s.published time
  | .update w time, s => (s.collected w).published time

end LoggedMonitor

/-- Calls in any order, whatever the kernel and the allocator answer. -/
def loggedSystem (host : Host) : LabelledSystem LoggedMonitor MonitorCall where
  Init s := s = .init host
  Step s call s' := s' = s.apply call

/-- The array, the log and the list of `ProcessMonitor` tell the same. -/
structure LoggedMonitor.Agrees (s : LoggedMonitor) : Prop where
  window : s.window.contents = s.generated.rtake maxEvents
  events : s.monitor.events = s.window.contents

namespace LoggedMonitor.Agrees

variable {s : LoggedMonitor}

theorem collected (agrees : s.Agrees) (w : Sweep) : (s.collected w).Agrees where
  window := agrees.window
  events := by
    obtain ⟨_, _, _, events, _⟩ := collect_frame w s.monitor
    exact events.trans agrees.events

theorem published (agrees : s.Agrees) (time : Stamps) : (s.published time).Agrees := by
  have window : (s.published time).window.contents =
      (s.generated ++ changes time s.monitor).rtake maxEvents := by
    rw [LoggedMonitor.published, detectInto_eq]
    exact BoundedWindow.contents_foldl_push maxEvents_pos agrees.window _
  have generated : detectInto (fun log event => log ++ [event]) time s.monitor s.generated =
      s.generated ++ changes time s.monitor := by
    rw [detectInto_eq, List.foldl_append_eq_append, ← List.flatMap_def, List.flatMap_singleton']
  refine ⟨by rw [window, ← generated]; rfl, ?_⟩
  rw [window, LoggedMonitor.published, publish_events, agrees.events, agrees.window]
  exact foldl_pushWindow maxEvents_pos _ _

theorem apply (agrees : s.Agrees) (call : MonitorCall) : (s.apply call).Agrees := by
  cases call with
  | collect w => exact agrees.collected w
  | publish time => exact agrees.published time
  | update w time => exact (agrees.collected w).published time

end LoggedMonitor.Agrees

theorem logged_agrees {host : Host} {s : LoggedMonitor}
    (reachable : (loggedSystem host).Reachable s) : s.Agrees := by
  apply reachable.invariant (P := LoggedMonitor.Agrees)
  · intro s start
    subst start
    exact ⟨BoundedWindow.contents_empty _, (BoundedWindow.contents_empty _).symm⟩
  · intro s call next step agrees
    subst step
    exact agrees.apply call

theorem LoggedMonitor.apply_monitor (s : LoggedMonitor) (call : MonitorCall) :
    (s.apply call).monitor = call.apply s.monitor := by
  cases call <;> rfl

/-- What the array adds to a monitor changes nothing in it. -/
theorem logged_monitor {host : Host} {trace : List MonitorCall} {s : LoggedMonitor}
    (history : (loggedSystem host).Trace trace s) :
    s.monitor = trace.foldl (fun m call => call.apply m) (.init host) := by
  refine history.induct (P := fun trace s =>
    s.monitor = trace.foldl (fun m call => call.apply m) (.init host)) ?_ ?_
  · intro s start
    subst start
    rfl
  · intro trace s call next _ same step
    subst step
    rw [List.foldl_append, ← same]
    exact s.apply_monitor call

/-- After any calls the array holds the last hundred of all events pushed so far,
    oldest first. Asked for some number of them, `km_process_monitor_recent_events`
    points at that many of the last, or at all there are, and says how many. -/
theorem window_holds_last {host : Host} {trace : List MonitorCall} {s : LoggedMonitor}
    (history : (loggedSystem host).Trace trace s) :
    s.window.slice 0 s.window.count = s.generated.rtake maxEvents ∧
      s.window.count = min maxEvents s.generated.length ∧
      (∀ k, (s.window.recent k).2 = min k s.window.count ∧
        s.window.slice (s.window.recent k).1 (s.window.recent k).2 =
          s.generated.rtake (min k s.window.count) ∧
        s.monitor.recentEvents k = s.generated.rtake (min k s.window.count)) ∧
      s.monitor = trace.foldl (fun m call => call.apply m) (.init host) := by
  obtain ⟨window, events⟩ := logged_agrees ⟨trace, history⟩
  have length := s.window.length_contents
  have count : s.window.count = min maxEvents s.generated.length := by
    rw [← length, window, List.rtake, List.length_drop]
    omega
  have suffix k : s.window.contents.rtake (min k s.window.count) =
      s.generated.rtake (min k s.window.count) := by
    rw [window, rtake_rtake]
    have fits := s.window.fits
    omega
  refine ⟨window, count, fun k => ?_, logged_monitor history⟩
  obtain ⟨reported, slice⟩ := s.window.slice_recent k
  refine ⟨reported, slice.trans (suffix k), ?_⟩
  rw [← suffix, ProcessMonitor.recentEvents, events, List.rtake, length]
  split
  · rename_i all
    rw [Nat.min_eq_right all, Nat.sub_self, List.drop_zero]
  · rw [Nat.min_eq_left (by omega)]

/-! The two PIDs of the small machine appear in its first sample. -/

def exampleLogged : LoggedMonitor :=
  (LoggedMonitor.init exampleHost).apply (.update exampleSweep exampleStamps)

theorem window_holds_last_example :
    exampleLogged.generated.map (fun event => (event.type, event.pid)) =
        [(.processCreated, 3), (.processCreated, 12)] ∧
      exampleLogged.window.recent 1 = (1, 1) ∧
      exampleLogged.window.slice (exampleLogged.window.recent 1).1
          (exampleLogged.window.recent 1).2 =
        exampleLogged.generated.rtake (min 1 exampleLogged.window.count) := by
  have history : (loggedSystem exampleHost).Trace [.update exampleSweep exampleStamps]
      exampleLogged := ⟨_, rfl, .single rfl⟩
  obtain ⟨_, _, recent, _⟩ := window_holds_last history
  exact ⟨by decide +kernel, by decide +kernel, (recent 1).2.1⟩

end KernelMonitor
