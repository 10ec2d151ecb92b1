import KernelMonitor.Library.LabelledRun

/-! # Answering a run with a run

A step of one system is answered by a run of another, and the two histories stay
related. The relation sees both label lists, so what an observer makes of them is part
of it.
-/

namespace KernelMonitor.Library.LabelledSystem

variable {State Label State' Label' : Type*} {sys : LabelledSystem State Label}
  {spec : LabelledSystem State' Label'}

/-- A relation between histories that holds at the start and is kept by every step. -/
structure Answers (sys : LabelledSystem State Label) (spec : LabelledSystem State' Label')
    (Rel : List Label → State → List Label' → State' → Prop) : Prop where
  init : ∀ s, sys.Init s → ∃ a, spec.Init a ∧ Rel [] s [] a
  step : ∀ trace s label t answered a, sys.Trace trace s → sys.Step s label t →
    spec.Trace answered a → Rel trace s answered a →
    ∃ more b, Run spec a more b ∧ Rel (trace ++ [label]) t (answered ++ more) b

theorem Answers.run {Rel : List Label → State → List Label' → State' → Prop}
    (answers : Answers sys spec Rel) {start trace s} (initial : sys.Init start)
    (run : Run sys start trace s) :
    ∃ first answered a, spec.Init first ∧ Rel [] start [] first ∧
      Run spec first answered a ∧ Rel trace s answered a := by
  obtain ⟨first, begins, related⟩ := answers.init start initial
  suffices ∃ answered a, Run spec first answered a ∧ Rel trace s answered a by
    obtain ⟨answered, a, answer, final⟩ := this
    exact ⟨first, answered, a, begins, related, answer, final⟩
  refine run.induct (P := fun trace s => ∃ answered a, Run spec first answered a ∧
    Rel trace s answered a) ⟨[], first, .refl first, related⟩ ?_
  intro trace s label t before ih step
  obtain ⟨answered, a, earlier, related⟩ := ih
  obtain ⟨more, b, run, next⟩ :=
    answers.step _ _ _ _ _ _ ⟨start, initial, before⟩ step ⟨first, begins, earlier⟩ related
  exact ⟨_, b, earlier.append run, next⟩

theorem Answers.trace {Rel : List Label → State → List Label' → State' → Prop}
    (answers : Answers sys spec Rel) {trace s} (history : sys.Trace trace s) :
    ∃ answered a, spec.Trace answered a ∧ Rel trace s answered a := by
  obtain ⟨start, initial, run⟩ := history
  obtain ⟨first, answered, a, begins, _, answer, final⟩ := answers.run initial run
  exact ⟨answered, a, ⟨first, begins, answer⟩, final⟩

/-- Where every step of one system is a run of another, what the one reaches so does the
    other. -/
theorem Reachable.refined {spec : LabelledSystem State Label'} (init : ∀ s, sys.Init s → spec.Init s)
    (steps : ∀ s label t, sys.Step s label t → ∃ labels, Run spec s labels t) {s}
    (reachable : sys.Reachable s) : spec.Reachable s := by
  refine reachable.invariant (P := spec.Reachable) ?_ ?_
  · exact fun s initial => ⟨[], s, init s initial, .refl s⟩
  · intro s label t step earlier
    obtain ⟨trace, history⟩ := earlier
    obtain ⟨labels, run⟩ := steps s label t step
    exact ⟨_, history.append run⟩

/-- A rule that the labels of a run cannot break restricts nothing. -/
theorem Run.restrict {Allowed : State → Label → State → Prop} {s trace t}
    (run : Run sys s trace t) (allowed : ∀ label ∈ trace, ∀ s t, Allowed s label t) :
    Run (sys.restrict Allowed) s trace t := by
  induction run with
  | refl => exact .refl _
  | snoc _ step ih =>
      refine .snoc (ih fun label member => allowed label (List.mem_append_left _ member)) ?_
      exact ⟨step, allowed _ (by simp) _ _⟩

end KernelMonitor.Library.LabelledSystem
