import KernelMonitor.Library.ThreadPool

/-! # A crowd and its largest size

Threads count themselves in and out with atomic additions. Each raises a shared maximum
to the size it has made with a loop of compare-and-swap, which may fail for no reason.
Once nobody is in the loop, the maximum is the largest size there has been.
-/

namespace KernelMonitor.Library

/-- Where a thread is in the loop; it has seen `most` there last. -/
inductive RaisePoint where
  | loading
  | comparing (most : ℤ)
  | done
  deriving DecidableEq, Repr

/-- One access to the maximum, by a thread that raises it to `size`. -/
inductive RaiseStep (size : ℤ) : ℤ → RaisePoint → ℤ → RaisePoint → Prop where
  | load {most : ℤ} : RaiseStep size most .loading most (.comparing most)
  | enough {most seen : ℤ} (less : size ≤ seen) : RaiseStep size most (.comparing seen) most .done
  | swap {most : ℤ} (more : most < size) : RaiseStep size most (.comparing most) size .done
  /-- What is there is loaded again. -/
  | fail {most seen : ℤ} (more : seen < size) :
      RaiseStep size most (.comparing seen) most (.comparing most)

/-- The number of threads inside, and the largest such number so far. -/
structure Crowd where
  now : ℤ
  most : ℤ
  deriving DecidableEq, Repr

inductive CrowdPoint where
  | before
  | inside (size : ℤ) (loop : RaisePoint)
  | after
  deriving DecidableEq, Repr

inductive CrowdLabel where
  | enter (size : ℤ)
  | raise
  | leave
  deriving DecidableEq, Repr

inductive CrowdStep : Crowd → CrowdPoint → CrowdLabel → Crowd → CrowdPoint → Prop where
  | enter {c : Crowd} :
      CrowdStep c .before (.enter (c.now + 1)) { c with now := c.now + 1 }
        (.inside (c.now + 1) .loading)
  | raise {c : Crowd} {size most : ℤ} {loop next : RaisePoint}
      (step : RaiseStep size c.most loop most next) :
      CrowdStep c (.inside size loop) .raise { c with most := most } (.inside size next)
  | leave {c : Crowd} {size : ℤ} :
      CrowdStep c (.inside size .done) .leave { c with now := c.now - 1 } .after

/-- A thread that is counted. -/
def CrowdPoint.counted : CrowdPoint → ℕ
  | .inside _ _ => 1
  | _ => 0

/-- The maximum is at least as large as what a thread has raised it to, and as what a thread
    in the loop has seen. -/
def CrowdPoint.Fits (most : ℤ) : CrowdPoint → Prop
  | .inside _ (.comparing seen) => seen ≤ most
  | .inside size .done => size ≤ most
  | _ => True

/-- A thread inside has one of these sizes. -/
def CrowdPoint.SizeIn (seen : List ℤ) : CrowdPoint → Prop
  | .inside size _ => size ∈ seen
  | _ => True

theorem CrowdPoint.SizeIn.mono {seen more : List ℤ} {point : CrowdPoint}
    (known : point.SizeIn seen) (grows : ∀ size ∈ seen, size ∈ more) : point.SizeIn more := by
  cases point with
  | before | after => trivial
  | inside size => exact grows size known

/-- In the loop, with a size the maximum may not have reached. -/
def CrowdPoint.Raising (size : ℤ) (point : CrowdPoint) : Prop :=
  ∃ loop, point = .inside size loop ∧ loop ≠ .done

theorem CrowdPoint.Fits.grow {most more : ℤ} {point : CrowdPoint} (fits : point.Fits most)
    (grows : most ≤ more) : point.Fits more := by
  cases point with
  | before | after => trivial
  | inside size loop =>
      cases loop with
      | loading => trivial
      | comparing seen => exact le_trans fits grows
      | done => exact le_trans fits grows

theorem RaiseStep.grows {size most more : ℤ} {loop next : RaisePoint}
    (step : RaiseStep size most loop more next) : most ≤ more ∧ (more = most ∨ more = size) := by
  cases step with
  | load | enough | fail => exact ⟨le_rfl, .inl rfl⟩
  | swap more => exact ⟨more.le, .inr rfl⟩

theorem RaiseStep.fits {size most more : ℤ} {loop next : RaisePoint}
    (step : RaiseStep size most loop more next)
    (fits : CrowdPoint.Fits most (.inside size loop)) :
    CrowdPoint.Fits more (.inside size next) := by
  cases step with
  | load | fail => exact le_rfl
  | swap => exact le_rfl
  | enough less => exact le_trans less fits

section

variable {Thread : Type*} [DecidableEq Thread]

/-- Threads that each go in and out once. -/
def crowdSystem (Thread : Type*) [DecidableEq Thread] :
    LabelledSystem (Pool Thread Crowd CrowdPoint) (Thread × CrowdLabel) :=
  Pool.system ⟨0, 0⟩ (fun _ => .before) fun _ => CrowdStep

/-- The sizes made by those who came in. -/
def sizes (trace : List (Thread × CrowdLabel)) : List ℤ :=
  trace.filterMap fun label =>
    match label.2 with
    | .enter size => some size
    | _ => none

omit [DecidableEq Thread] in
theorem sizes_append (first second : List (Thread × CrowdLabel)) :
    sizes (first ++ second) = sizes first ++ sizes second :=
  List.filterMap_append

/-- What is known of the maximum after a run. -/
structure CrowdKept (trace : List (Thread × CrowdLabel)) (p : Pool Thread Crowd CrowdPoint) :
    Prop where
  fits : ∀ i, (p.point i).Fits p.shared.most
  positive : 0 ≤ p.shared.most
  source : p.shared.most = 0 ∨ p.shared.most ∈ sizes trace
  within : ∀ i, (p.point i).SizeIn (sizes trace)
  raised : ∀ size ∈ sizes trace, size ≤ p.shared.most ∨ ∃ i, (p.point i).Raising size
  now : p.shared.now ≤ 0 ∨ ∃ size ∈ sizes trace, p.shared.now ≤ size

theorem CrowdKept.enter {trace : List (Thread × CrowdLabel)} {p : Pool Thread Crowd CrowdPoint}
    (kept : CrowdKept trace p) {i : Thread} (there : p.point i = .before) :
    CrowdKept (trace ++ [(i, .enter (p.shared.now + 1))])
      (p.move i { p.shared with now := p.shared.now + 1 } (.inside (p.shared.now + 1) .loading)) := by
  have new : p.shared.now + 1 ∈ sizes (trace ++ [(i, .enter (p.shared.now + 1))]) := by
    rw [sizes_append]
    exact List.mem_append_right _ (List.mem_singleton.mpr rfl)
  have old : ∀ size ∈ sizes trace, size ∈ sizes (trace ++ [(i, .enter (p.shared.now + 1))]) := by
    intro size member
    rw [sizes_append]
    exact List.mem_append_left _ member
  have stays : ∀ j size, (p.point j).Raising size →
      ((p.move i { p.shared with now := p.shared.now + 1 }
        (.inside (p.shared.now + 1) .loading)).point j).Raising size := by
    rintro j size ⟨loop, inside, going⟩
    have other : j ≠ i := by
      rintro rfl
      rw [there] at inside
      cases inside
    rw [p.move_other other]
    exact ⟨loop, inside, going⟩
  refine ⟨p.forall_move trivial fun j _ => kept.fits j, kept.positive,
    kept.source.imp_right (old _), p.forall_move new fun j _ => (kept.within j).mono old,
    fun size member => ?_, .inr ⟨_, new, le_rfl⟩⟩
  · rw [sizes_append] at member
    rcases List.mem_append.mp member with before | last
    · rcases kept.raised size before with small | ⟨j, raising⟩
      · exact .inl small
      · exact .inr ⟨j, stays j size raising⟩
    · obtain rfl := List.mem_singleton.mp last
      exact .inr ⟨i, .loading, p.move_self i _ _, by simp⟩

theorem CrowdKept.raise {trace : List (Thread × CrowdLabel)} {p : Pool Thread Crowd CrowdPoint}
    (kept : CrowdKept trace p) {i : Thread} {size most : ℤ} {loop next : RaisePoint}
    (there : p.point i = .inside size loop) (step : RaiseStep size p.shared.most loop most next) :
    CrowdKept (trace ++ [(i, .raise)])
      (p.move i { p.shared with most := most } (.inside size next)) := by
  have same : sizes (trace ++ [(i, .raise)]) = sizes trace := by
    rw [sizes_append]
    exact List.append_nil _
  have mine : size ∈ sizes trace := by
    have known := kept.within i
    rwa [there] at known
  have grows := step.grows
  have fits : CrowdPoint.Fits most (.inside size next) := step.fits (there ▸ kept.fits i)
  refine ⟨p.forall_move fits fun j _ => (kept.fits j).grow grows.1, kept.positive.trans grows.1,
    ?_, ?_, ?_, ?_⟩ <;> rw [same]
  · rcases grows.2 with old | new
    · rw [Pool.move_shared, old]
      exact kept.source
    · exact .inr (new ▸ mine)
  · exact p.forall_move mine fun j _ => kept.within j
  · intro other member
    rcases kept.raised other member with small | ⟨j, before, inside, going⟩
    · exact .inl (small.trans grows.1)
    · by_cases own : j = i
      · subst own
        rw [there] at inside
        cases inside
        cases next with
        | done => exact .inl fits
        | loading | comparing =>
            exact .inr ⟨j, _, p.move_self j _ _, by simp⟩
      · exact .inr ⟨j, before, (p.move_other own _ _).trans inside, going⟩
  · exact kept.now

theorem CrowdKept.leave {trace : List (Thread × CrowdLabel)} {p : Pool Thread Crowd CrowdPoint}
    (kept : CrowdKept trace p) {i : Thread} {size : ℤ} (there : p.point i = .inside size .done) :
    CrowdKept (trace ++ [(i, .leave)])
      (p.move i { p.shared with now := p.shared.now - 1 } .after) := by
  have same : sizes (trace ++ [(i, .leave)]) = sizes trace := by
    rw [sizes_append]
    exact List.append_nil _
  refine ⟨p.forall_move trivial fun j _ => kept.fits j, kept.positive, ?_, ?_, ?_, ?_⟩ <;> rw [same]
  · exact kept.source
  · exact p.forall_move trivial fun j _ => kept.within j
  · intro other member
    rcases kept.raised other member with small | ⟨j, loop, inside, going⟩
    · exact .inl small
    · refine .inr ⟨j, loop, (p.move_other ?_ _ _).trans inside, going⟩
      rintro rfl
      rw [there] at inside
      cases inside
      exact going rfl
  · rcases kept.now with none | ⟨peak, member, below⟩
    · exact .inl (by simp only [Pool.move_shared]; omega)
    · exact .inr ⟨peak, member, by simp only [Pool.move_shared]; omega⟩

theorem crowd_kept {trace : List (Thread × CrowdLabel)} {p : Pool Thread Crowd CrowdPoint}
    (history : (crowdSystem Thread).Trace trace p) : CrowdKept trace p := by
  refine history.induct ?_ ?_
  · rintro _ rfl
    exact ⟨fun _ => trivial, le_rfl, .inl rfl, fun _ => trivial, by simp [sizes], .inl le_rfl⟩
  · rintro trace p ⟨i, label⟩ next _ kept taken
    obtain ⟨shared, point, step, rfl⟩ := Pool.exists_move taken
    generalize there : p.point i = here at step
    cases step with
    | enter => exact kept.enter there
    | raise step => exact kept.raise there step
    | leave => exact kept.leave there

/-- Once nobody is in the loop the maximum is the largest size of any moment. -/
theorem crowd_peak {trace : List (Thread × CrowdLabel)} {p : Pool Thread Crowd CrowdPoint}
    (history : (crowdSystem Thread).Trace trace p) (out : ∀ i size, ¬ (p.point i).Raising size) :
    (∀ first second q, trace = first ++ second → (crowdSystem Thread).Trace first q →
      q.shared.now ≤ p.shared.most) ∧ (p.shared.most = 0 ∨ p.shared.most ∈ sizes trace) ∧
      ∀ size ∈ sizes trace, size ≤ p.shared.most := by
  have kept := crowd_kept history
  have reached : ∀ size ∈ sizes trace, size ≤ p.shared.most := by
    intro size member
    exact (kept.raised size member).resolve_right fun ⟨i, raising⟩ => out i size raising
  refine ⟨?_, kept.source, reached⟩
  rintro first second q rfl earlier
  rcases (crowd_kept earlier).now with none | ⟨peak, member, below⟩
  · exact none.trans kept.positive
  · refine below.trans (reached peak ?_)
    rw [sizes_append]
    exact List.mem_append_left _ member

/-- The counter is the number of threads inside. -/
theorem crowd_counts [Fintype Thread] {p : Pool Thread Crowd CrowdPoint}
    (reachable : (crowdSystem Thread).Reachable p) :
    p.shared.now = p.total CrowdPoint.counted := by
  refine reachable.invariant (P := fun p => p.shared.now = p.total CrowdPoint.counted) ?_ ?_
  · rintro _ rfl
    simp [Pool.total, CrowdPoint.counted]
  · rintro p ⟨i, label⟩ next taken counts
    obtain ⟨shared, point, step, rfl⟩ := Pool.exists_move taken
    have moved := p.total_move CrowdPoint.counted i shared point
    generalize p.point i = here at step moved
    cases step with
    | enter | raise | leave =>
        simp only [CrowdPoint.counted, Pool.move_shared] at moved ⊢
        omega

theorem sizes_positive [Fintype Thread] {trace : List (Thread × CrowdLabel)}
    {p : Pool Thread Crowd CrowdPoint} (history : (crowdSystem Thread).Trace trace p) :
    ∀ size ∈ sizes trace, 1 ≤ size := by
  refine history.induct (P := fun trace _ => ∀ size ∈ sizes trace, 1 ≤ size) (by simp [sizes]) ?_
  rintro trace p ⟨i, label⟩ next earlier positive taken size member
  rw [sizes_append] at member
  rcases List.mem_append.mp member with before | last
  · exact positive size before
  · obtain ⟨shared, point, step, rfl⟩ := Pool.exists_move taken
    generalize p.point i = here at step
    cases step with
    | enter =>
        have counts := crowd_counts ⟨trace, earlier⟩
        rw [List.mem_singleton.mp last, counts]
        omega
    | raise | leave => cases last

/-- Who has been inside has made a size. -/
theorem sizes_ne_nil {trace : List (Thread × CrowdLabel)} {p : Pool Thread Crowd CrowdPoint}
    (history : (crowdSystem Thread).Trace trace p) :
    ∀ i, p.point i ≠ .before → sizes trace ≠ [] := by
  refine history.induct (P := fun trace p => ∀ i, p.point i ≠ .before → sizes trace ≠ []) ?_ ?_
  · rintro _ rfl i come
    exact absurd rfl come
  · rintro trace p ⟨i, label⟩ next earlier ih taken
    obtain ⟨shared, point, step, rfl⟩ := Pool.exists_move taken
    have longer : sizes trace ≠ [] → sizes (trace ++ [(i, label)]) ≠ [] := by
      intro some none
      rw [sizes_append] at none
      exact some (List.append_eq_nil_iff.mp none).1
    refine Pool.forall_move (P := fun _ (point : CrowdPoint) => point ≠ .before → _) (fun come => ?_)
      fun j _ come => longer (ih j come)
    generalize there : p.point i = here at step
    cases step with
    | enter =>
        rw [sizes_append]
        exact List.append_ne_nil_of_right_ne_nil _ (List.cons_ne_nil _ _)
    | raise | leave => exact longer (ih i (by simp [there]))

end

/-! ## A crowd inside a larger system -/

/-- What of a program's steps is about the crowd. -/
structure CrowdPart {Thread Shared Point Label : Type*}
    (step : Thread → Shared → Point → Label → Shared → Point → Prop) where
  crowd : Shared → Crowd
  point : Point → CrowdPoint
  label : Label → Option CrowdLabel
  steps : ∀ i s here l t there, step i s here l t there →
    (∀ seen, label l = some seen → CrowdStep (crowd s) (point here) seen (crowd t) (point there)) ∧
      (label l = none → crowd t = crowd s ∧ point there = point here)

namespace CrowdPart

variable {Thread Shared Point Label : Type*} [DecidableEq Thread] {shared : Shared}
  {entry : Thread → Point} {step : Thread → Shared → Point → Label → Shared → Point → Prop}
  (part : CrowdPart step)

def view (p : Pool Thread Shared Point) : Pool Thread Crowd CrowdPoint :=
  p.map part.crowd part.point

def seen (trace : List (Thread × Label)) : List (Thread × CrowdLabel) :=
  trace.filterMap fun label => (part.label label.2).map (label.1, ·)

/-- Nobody is inside yet, or has ever been. -/
structure Begins (shared : Shared) (entry : Thread → Point) : Prop where
  crowd : part.crowd shared = ⟨0, 0⟩
  points : ∀ i, part.point (entry i) = .before

variable {part}

theorem Begins.trace (begins : part.Begins shared entry) {trace : List (Thread × Label)}
    {p : Pool Thread Shared Point} (history : (Pool.system shared entry step).Trace trace p) :
    (crowdSystem Thread).Trace (part.seen trace) (part.view p) := by
  obtain ⟨_, rfl, run⟩ := history
  have start : part.view ⟨shared, entry⟩ = ⟨⟨0, 0⟩, fun _ => .before⟩ := by
    simp only [view, Pool.map, begins.crowd, begins.points]
  have mapped : (crowdSystem Thread).Run (part.view ⟨shared, entry⟩) (part.seen trace)
      (part.view p) := Pool.run_map part.crowd part.point part.label part.steps run
  exact ⟨_, start, mapped⟩

/-- A bound on the number inside is one on the sizes made. -/
theorem sizes_le {bound : ℤ}
    (within : ∀ q, (Pool.system shared entry step).Reachable q → (part.crowd q.shared).now ≤ bound)
    {trace : List (Thread × Label)} {p : Pool Thread Shared Point}
    (history : (Pool.system shared entry step).Trace trace p) :
    ∀ size ∈ sizes (part.seen trace), size ≤ bound := by
  refine history.induct (P := fun trace _ => ∀ size ∈ sizes (part.seen trace), size ≤ bound)
    (by simp [seen, sizes]) ?_
  rintro trace p ⟨i, label⟩ next earlier small taken size member
  have limit := within next ⟨_, earlier.extend taken⟩
  obtain ⟨after, there, own, rfl⟩ := Pool.exists_move taken
  have crowded := (part.steps _ _ _ _ _ _ own).1
  rw [seen, List.filterMap_append, sizes_append] at member
  rcases List.mem_append.mp member with before | last
  · exact small size before
  · rw [List.filterMap_cons] at last
    cases known : part.label label with
    | none =>
        simp only [known, Option.map_none] at last
        cases last
    | some crowd =>
        have step := crowded crowd known
        simp only [known, Option.map_some] at last
        cases crowd with
        | enter made =>
            obtain rfl := List.mem_singleton.mp last
            rw [Pool.move_shared] at limit
            generalize part.crowd after = later at step limit
            generalize part.point (p.point i) = here at step
            generalize part.point there = inside at step
            cases step
            exact limit
        | raise | leave => cases last

omit [DecidableEq Thread] in
theorem mem_seen {trace : List (Thread × Label)} {size : ℤ}
    (member : size ∈ sizes (part.seen trace)) :
    ∃ i label, (i, label) ∈ trace ∧ part.label label = some (.enter size) := by
  obtain ⟨⟨i, crowd⟩, inside, made⟩ := List.mem_filterMap.mp member
  obtain ⟨⟨j, label⟩, there, seen⟩ := List.mem_filterMap.mp inside
  obtain ⟨inner, known, same⟩ := Option.map_eq_some_iff.mp seen
  obtain ⟨rfl, rfl⟩ := Prod.mk.inj same
  cases inner with
  | enter => cases made; exact ⟨j, label, there, known⟩
  | raise | leave => cases made

/-- What the maximum says of a run after which nobody is inside. -/
structure Peak (part : CrowdPart step) (sys : LabelledSystem (Pool Thread Shared Point) (Thread × Label))
    (trace : List (Thread × Label)) (bound : ℤ) (p : Pool Thread Shared Point) : Prop where
  empty : (part.crowd p.shared).now = 0
  within : (part.crowd p.shared).most ≤ bound
  largest : ∀ first second q, trace = first ++ second → sys.Trace first q →
    (part.crowd q.shared).now ≤ (part.crowd p.shared).most
  reached : ∀ i, part.point (p.point i) ≠ .before → 1 ≤ (part.crowd p.shared).most ∧
    ∃ j label, (j, label) ∈ trace ∧ part.label label = some (.enter (part.crowd p.shared).most)

theorem Begins.peak [Fintype Thread] (begins : part.Begins shared entry) {bound : ℤ}
    (positive : 0 ≤ bound)
    (within : ∀ q, (Pool.system shared entry step).Reachable q → (part.crowd q.shared).now ≤ bound)
    {trace : List (Thread × Label)} {p : Pool Thread Shared Point}
    (history : (Pool.system shared entry step).Trace trace p)
    (out : ∀ i, part.point (p.point i) = .before ∨ part.point (p.point i) = .after) :
    part.Peak (Pool.system shared entry step) trace bound p := by
  have crowd := begins.trace history
  have notRaising : ∀ i size, ¬ ((part.view p).point i).Raising size := by
    rintro i size ⟨loop, inside, _⟩
    have here : part.point (p.point i) = .inside size loop := inside
    rcases out i with there | there <;> rw [there] at here <;> cases here
  have nobody : (part.view p).total CrowdPoint.counted = 0 := by
    refine Pool.total_eq_zero.mpr fun i => ?_
    simp only [view, Pool.map]
    rcases out i with here | here <;> rw [here] <;> rfl
  have counts : (part.crowd p.shared).now = (part.view p).total CrowdPoint.counted :=
    crowd_counts ⟨_, crowd⟩
  obtain ⟨largest, source, bounds⟩ := crowd_peak crowd notRaising
  refine ⟨by rw [counts, nobody]; rfl, ?_, ?_, fun i come => ?_⟩
  · rcases source with zero | member
    · have same : (part.crowd p.shared).most = 0 := zero
      omega
    · exact sizes_le within history _ member
  · rintro first second q rfl earlier
    refine largest (part.seen first) (part.seen second) _ ?_ (begins.trace earlier)
    exact List.filterMap_append
  · obtain ⟨size, member⟩ := List.exists_mem_of_ne_nil _ (sizes_ne_nil crowd i come)
    have made : (part.crowd p.shared).most ∈ sizes (part.seen trace) := by
      have atLeast := sizes_positive crowd size member
      have most := bounds size member
      refine source.resolve_left fun zero => ?_
      rw [zero] at most
      omega
    exact ⟨sizes_positive crowd _ made, mem_seen made⟩

end CrowdPart

/-! ## Getting out -/

/-- A thread that is left alone gets out of the loop. -/
theorem raise_finishes (size most : ℤ) (loop : RaisePoint) :
    ∃ after, Relation.ReflTransGen (fun a b => RaiseStep size a.1 a.2 b.1 b.2) (most, loop)
      (after, .done) := by
  have compared : ∃ after, Relation.ReflTransGen
      (fun a b : ℤ × RaisePoint => RaiseStep size a.1 a.2 b.1 b.2) (most, .comparing most)
      (after, .done) := by
    by_cases more : most < size
    · exact ⟨size, .single (.swap more)⟩
    · exact ⟨most, .single (.enough (not_lt.mp more))⟩
  obtain ⟨after, rest⟩ := compared
  cases loop with
  | done => exact ⟨most, .refl⟩
  | loading => exact ⟨after, .head .load rest⟩
  | comparing seen =>
      by_cases more : seen < size
      · exact ⟨after, .head (.fail more) rest⟩
      · exact ⟨most, .single (.enough (not_lt.mp more))⟩

/-- And so it gets out of the crowd. -/
theorem crowd_finishes (c : Crowd) (point : CrowdPoint) :
    ∃ after, Relation.ReflTransGen (fun a b => ∃ label, CrowdStep a.1 a.2 label b.1 b.2)
      (c, point) (after, .after) := by
  have leaves : ∀ (c : Crowd) size loop, ∃ after,
      Relation.ReflTransGen (fun a b => ∃ label, CrowdStep a.1 a.2 label b.1 b.2)
        (c, .inside size loop) (after, .after) := by
    intro c size loop
    obtain ⟨most, raised⟩ := raise_finishes size c.most loop
    have inside : Relation.ReflTransGen (fun a b => ∃ label, CrowdStep a.1 a.2 label b.1 b.2)
        (c, .inside size loop) ({ c with most := most }, .inside size .done) :=
      raised.lift (fun a : ℤ × RaisePoint =>
          (({ c with most := a.1 } : Crowd), CrowdPoint.inside size a.2))
        fun _ _ step => ⟨.raise, .raise step⟩
    exact ⟨_, inside.tail ⟨.leave, .leave⟩⟩
  cases point with
  | after => exact ⟨c, .refl⟩
  | inside size loop => exact leaves c size loop
  | before =>
      obtain ⟨after, rest⟩ := leaves { c with now := c.now + 1 } (c.now + 1) .loading
      exact ⟨after, .head ⟨_, .enter⟩ rest⟩

end KernelMonitor.Library
