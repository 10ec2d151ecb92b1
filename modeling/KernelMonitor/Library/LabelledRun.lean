import Mathlib

/-! # Labelled systems and their finite runs

A system is a set of initial states and a labelled step relation. Runs carry the
list of labels they went through, oldest first, so a property of a whole run is
a property of that list. Every induction over a run is stated here once.
-/

namespace KernelMonitor.Library

/-- Initial states and labelled steps. -/
structure LabelledSystem (State Label : Type*) where
  Init : State → Prop
  Step : State → Label → State → Prop

namespace LabelledSystem

variable {State Label State' Label' : Type*} {sys : LabelledSystem State Label}

/-- A finite run, extended at its end. -/
inductive Run (sys : LabelledSystem State Label) : State → List Label → State → Prop where
  | refl (s) : Run sys s [] s
  | snoc {s trace t label u} : Run sys s trace t → sys.Step t label u →
      Run sys s (trace ++ [label]) u

/-- A run that begins in an initial state. -/
def Trace (sys : LabelledSystem State Label) (trace : List Label) (s : State) : Prop :=
  ∃ start, sys.Init start ∧ Run sys start trace s

def Reachable (sys : LabelledSystem State Label) (s : State) : Prop :=
  ∃ trace, sys.Trace trace s

theorem Run.single {s label t} (step : sys.Step s label t) : Run sys s [label] t :=
  .snoc (.refl s) step

theorem Run.append {s first t second u} (head : Run sys s first t) (tail : Run sys t second u) :
    Run sys s (first ++ second) u := by
  induction tail with
  | refl => simpa only [List.append_nil] using head
  | snoc _ step ih => simpa only [List.append_assoc] using Run.snoc ih step

theorem Run.cons {s label t trace u} (step : sys.Step s label t) (rest : Run sys t trace u) :
    Run sys s (label :: trace) u := (Run.single step).append rest

theorem Run.split {s first second u} (run : Run sys s (first ++ second) u) :
    ∃ t, Run sys s first t ∧ Run sys t second u := by
  induction second using List.reverseRecOn generalizing u with
  | nil => exact ⟨u, by simpa only [List.append_nil] using run, .refl u⟩
  | append_singleton second label ih =>
      rw [← List.append_assoc] at run
      generalize whole : first ++ second ++ [label] = trace at run
      cases run with
      | refl => simp at whole
      | snoc before step =>
          obtain ⟨rfl, same⟩ := List.append_inj' whole rfl
          cases same
          obtain ⟨t, head, tail⟩ := ih before
          exact ⟨t, head, .snoc tail step⟩

theorem Run.last {s trace label u} (run : Run sys s (trace ++ [label]) u) :
    ∃ t, Run sys s trace t ∧ sys.Step t label u := by
  generalize whole : trace ++ [label] = all at run
  cases run with
  | refl => simp at whole
  | snoc before step =>
      obtain ⟨rfl, same⟩ := List.append_inj' whole rfl
      cases same
      exact ⟨_, before, step⟩

theorem Run.nil {s u} (run : Run sys s [] u) : u = s := by
  generalize empty : ([] : List Label) = none at run
  cases run with
  | refl => rfl
  | snoc _ _ => simp at empty

theorem Run.first {s label trace u} (run : Run sys s (label :: trace) u) :
    ∃ t, sys.Step s label t ∧ Run sys t trace u := by
  have joined : Run sys s ([label] ++ trace) u := run
  obtain ⟨t, head, tail⟩ := joined.split
  have ended : Run sys s ([] ++ [label]) t := head
  obtain ⟨m, before, step⟩ := ended.last
  obtain rfl := before.nil
  exact ⟨t, step, tail⟩

/-- A property of states kept by every step is kept by every run. -/
theorem Run.keeps {P : State → Prop} (kept : ∀ s label t, sys.Step s label t → P s → P t)
    {s trace t} (run : Run sys s trace t) (holds : P s) : P t := by
  induction run with
  | refl => exact holds
  | snoc _ step ih => exact kept _ _ _ step ih

/-- The same when only the steps the trace really takes are known to keep it. -/
theorem Run.keeps_along {P : State → Prop} {Allowed : Label → Prop}
    (kept : ∀ s label t, sys.Step s label t → Allowed label → P s → P t)
    {s trace t} (run : Run sys s trace t) (allowed : ∀ label ∈ trace, Allowed label)
    (holds : P s) : P t := by
  induction run with
  | refl => exact holds
  | snoc _ step ih =>
      refine kept _ _ _ step (allowed _ (by simp)) (ih fun label member => allowed label ?_)
      exact List.mem_append_left _ member

/-- Induction over a run from a given state: the predicate sees the labels so far. -/
theorem Run.induct {P : List Label → State → Prop} {s} (start : P [] s)
    (next : ∀ trace t label u, Run sys s trace t → P trace t → sys.Step t label u →
      P (trace ++ [label]) u)
    {trace t} (run : Run sys s trace t) : P trace t := by
  induction run with
  | refl => exact start
  | snoc before step ih => exact next _ _ _ _ before ih step

/-- Induction over initial runs: the predicate sees the labels so far. -/
theorem Trace.induct {P : List Label → State → Prop} (init : ∀ s, sys.Init s → P [] s)
    (next : ∀ trace s label t, sys.Trace trace s → P trace s → sys.Step s label t →
      P (trace ++ [label]) t)
    {trace s} (history : sys.Trace trace s) : P trace s := by
  obtain ⟨start, initial, run⟩ := history
  refine run.induct (init _ initial) fun trace s label t before => ?_
  exact next trace s label t ⟨start, initial, before⟩

theorem Trace.extend {trace s label t} (history : sys.Trace trace s) (step : sys.Step s label t) :
    sys.Trace (trace ++ [label]) t := by
  obtain ⟨start, initial, run⟩ := history
  exact ⟨start, initial, .snoc run step⟩

theorem Trace.append {trace s more t} (history : sys.Trace trace s) (run : Run sys s more t) :
    sys.Trace (trace ++ more) t := by
  obtain ⟨start, initial, before⟩ := history
  exact ⟨start, initial, before.append run⟩

/-- The state before, at and after a label of a trace. -/
theorem Trace.around {before label after u} (history : sys.Trace (before ++ label :: after) u) :
    ∃ s t, sys.Trace before s ∧ sys.Step s label t ∧ sys.Trace (before ++ [label]) t ∧
      Run sys t after u := by
  obtain ⟨start, initial, run⟩ := history
  obtain ⟨s, head, rest⟩ := run.split
  obtain ⟨t, step, tail⟩ := rest.first
  exact ⟨s, t, ⟨start, initial, head⟩, step, ⟨start, initial, .snoc head step⟩, tail⟩

theorem Trace.split {first second u} (history : sys.Trace (first ++ second) u) :
    ∃ t, sys.Trace first t ∧ Run sys t second u := by
  obtain ⟨start, initial, run⟩ := history
  obtain ⟨t, head, tail⟩ := run.split
  exact ⟨t, ⟨start, initial, head⟩, tail⟩

/-- A state invariant, proved from its initial and step cases. -/
theorem Reachable.invariant {P : State → Prop} (init : ∀ s, sys.Init s → P s)
    (kept : ∀ s label t, sys.Step s label t → P s → P t) {s} (reachable : sys.Reachable s) :
    P s := by
  obtain ⟨_, start, initial, run⟩ := reachable
  exact run.keeps kept (init start initial)

theorem Reachable.step {s label t} (reachable : sys.Reachable s) (step : sys.Step s label t) :
    sys.Reachable t := by
  obtain ⟨trace, history⟩ := reachable
  exact ⟨_, history.extend step⟩

/-- A component of a larger system: steps either project to steps of the
    component or leave it alone, so runs project to runs. -/
theorem Run.project {target : LabelledSystem State' Label'} (view : State → State')
    (forget : Label → Option Label')
    (steps : ∀ s label t, sys.Step s label t →
      match forget label with
      | some seen => target.Step (view s) seen (view t)
      | none => view t = view s)
    {s trace t} (run : Run sys s trace t) :
    Run target (view s) (trace.filterMap forget) (view t) := by
  induction run with
  | refl => exact .refl _
  | snoc _ step ih =>
      rename_i label _ _
      have projected := steps _ _ _ step
      cases seen : forget label with
      | none =>
          simp only [seen] at projected
          simpa only [List.filterMap_append, List.filterMap_cons, seen, List.filterMap_nil,
            List.append_nil, projected] using ih
      | some l =>
          simp only [seen] at projected
          simpa only [List.filterMap_append, List.filterMap_cons, seen, List.filterMap_nil]
            using Run.snoc ih projected

/-- The system that takes a step only where it is allowed. -/
def restrict (sys : LabelledSystem State Label) (Allowed : State → Label → State → Prop) :
    LabelledSystem State Label where
  Init := sys.Init
  Step s label t := sys.Step s label t ∧ Allowed s label t

theorem Run.unrestrict {Allowed : State → Label → State → Prop} {s trace t}
    (run : Run (sys.restrict Allowed) s trace t) : Run sys s trace t := by
  induction run with
  | refl => exact .refl _
  | snoc _ step ih => exact .snoc ih step.1

theorem Trace.unrestrict {Allowed : State → Label → State → Prop} {trace s}
    (history : (sys.restrict Allowed).Trace trace s) : sys.Trace trace s := by
  obtain ⟨start, initial, run⟩ := history
  exact ⟨start, initial, run.unrestrict⟩

end LabelledSystem

end KernelMonitor.Library
