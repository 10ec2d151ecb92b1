import KernelMonitor.Library.CrowdCounter

/-! # Visitors of a room with permits

Model of part 4 of `demo/threadsync.c`, for any number of visitors and of permits: the
semaphore `g_room`, and the crowd of those who hold a permit, in `g_inside` and
`g_most_inside`.
-/

namespace KernelMonitor

open Library

/-- `g_room`, and `g_inside` with `g_most_inside`. -/
structure Room where
  permits : ℕ
  crowd : Crowd
  deriving DecidableEq, Repr

/-- Where `visitor` is; with a permit it counts itself in and out. -/
inductive Visitor where
  | waiting
  | admitted (point : CrowdPoint)
  | gone
  deriving DecidableEq, Repr

inductive VisitLabel where
  | wait
  | crowd (label : CrowdLabel)
  | post
  deriving DecidableEq, Repr

inductive VisitStep : Room → Visitor → VisitLabel → Room → Visitor → Prop where
  /-- `sem_wait` blocks at 0. -/
  | wait {r : Room} {permits : ℕ} (free : r.permits = permits + 1) :
      VisitStep r .waiting .wait { r with permits := permits } (.admitted .before)
  | crowd {r : Room} {here there : CrowdPoint} {label : CrowdLabel} {after : Crowd}
      (step : CrowdStep r.crowd here label after there) :
      VisitStep r (.admitted here) (.crowd label) { r with crowd := after } (.admitted there)
  | post {r : Room} :
      VisitStep r (.admitted .after) .post { r with permits := r.permits + 1 } .gone

def Visitor.admittedCount : Visitor → ℕ
  | .admitted _ => 1
  | _ => 0

/-- What of a visitor the crowd is about. -/
def Visitor.crowd : Visitor → CrowdPoint
  | .waiting => .before
  | .admitted point => point
  | .gone => .after

def VisitLabel.crowd? : VisitLabel → Option CrowdLabel
  | .crowd label => some label
  | _ => none

section

variable {Thread : Type*} [DecidableEq Thread]

/-- `part_semaphore` -/
def roomSystem (Thread : Type*) [DecidableEq Thread] (permits : ℕ) :
    LabelledSystem (Pool Thread Room Visitor) (Thread × VisitLabel) :=
  Pool.system ⟨permits, ⟨0, 0⟩⟩ (fun _ => .waiting) fun _ => VisitStep

/-- The crowd of the visitors. -/
def roomCrowd (Thread : Type*) : CrowdPart (fun _ : Thread => VisitStep) where
  crowd := Room.crowd
  point := Visitor.crowd
  label := VisitLabel.crowd?
  steps := by
    intro i r here label after there step
    cases step with
    | wait | post => exact ⟨by simp [VisitLabel.crowd?], fun _ => ⟨rfl, rfl⟩⟩
    | crowd step =>
        refine ⟨?_, by simp [VisitLabel.crowd?]⟩
        rintro _ ⟨⟩
        exact step

omit [DecidableEq Thread] in
theorem room_begins (permits : ℕ) :
    (roomCrowd Thread).Begins ⟨permits, ⟨0, 0⟩⟩ fun _ => .waiting :=
  ⟨rfl, fun _ => rfl⟩

variable [Fintype Thread]

/-- Every permit is in the semaphore or with a visitor. -/
theorem room_permits {permits : ℕ} {p : Pool Thread Room Visitor}
    (reachable : (roomSystem Thread permits).Reachable p) :
    p.shared.permits + p.total Visitor.admittedCount = permits := by
  refine reachable.invariant
    (P := fun p => p.shared.permits + p.total Visitor.admittedCount = permits) ?_ ?_
  · rintro _ rfl
    simp [Pool.total, Visitor.admittedCount]
  · rintro p ⟨i, label⟩ next taken kept
    obtain ⟨shared, point, step, rfl⟩ := Pool.exists_move taken
    have moved := p.total_move Visitor.admittedCount i shared point
    generalize p.point i = here at step moved
    cases step with
    | wait | crowd | post =>
        simp only [Visitor.admittedCount, Pool.move_shared] at moved ⊢
        omega

/-- Those who count themselves in hold a permit. -/
theorem room_within {permits : ℕ} {p : Pool Thread Room Visitor}
    (reachable : (roomSystem Thread permits).Reachable p) :
    0 ≤ p.shared.crowd.now ∧ p.shared.crowd.now ≤ permits := by
  obtain ⟨trace, history⟩ := reachable
  have counts : p.shared.crowd.now = ((roomCrowd Thread).view p).total CrowdPoint.counted :=
    crowd_counts ⟨_, (room_begins permits).trace history⟩
  have kept := room_permits ⟨trace, history⟩
  have fewer : ((roomCrowd Thread).view p).total CrowdPoint.counted ≤
      p.total Visitor.admittedCount := by
    refine Finset.sum_le_sum fun i _ => ?_
    have counted : ∀ v : Visitor, v.crowd.counted ≤ v.admittedCount := by
      intro v
      cases v with
      | waiting | gone => exact le_rfl
      | admitted point => cases point <;> simp [Visitor.crowd, CrowdPoint.counted, Visitor.admittedCount]
    exact counted (p.point i)
  omega

/-! ## Everybody gets out again -/

/-- Where visitors are until they have a permit, and until they are gone. -/
def Visitor.left : Visitor → ℕ
  | .waiting => 2
  | .admitted _ => 1
  | .gone => 0

omit [Fintype Thread] in
theorem visitor_leaves (permits : ℕ) {p : Pool Thread Room Visitor} {i : Thread} {point : CrowdPoint}
    (there : p.point i = .admitted point) :
    ∃ trace after, (roomSystem Thread permits).Run p trace (p.move i after .gone) := by
  obtain ⟨after, crowd⟩ := crowd_finishes p.shared.crowd point
  have inside : Relation.ReflTransGen (fun a b => ∃ label, VisitStep a.1 a.2 label b.1 b.2)
      (p.shared, .admitted point) ({ p.shared with crowd := after }, .admitted .after) :=
    crowd.lift (fun a : Crowd × CrowdPoint =>
        (({ p.shared with crowd := a.1 } : Room), Visitor.admitted a.2))
      fun _ _ ⟨label, step⟩ => ⟨.crowd label, .crowd step⟩
  have posts : VisitStep { p.shared with crowd := after } (.admitted .after) .post
      { permits := p.shared.permits + 1, crowd := after } .gone := .post
  have whole : Relation.ReflTransGen (fun a b => ∃ label, VisitStep a.1 a.2 label b.1 b.2)
      (p.shared, p.point i) ({ permits := p.shared.permits + 1, crowd := after }, .gone) := by
    rw [there]
    exact inside.tail ⟨.post, posts⟩
  have leaves : ∃ trace, (roomSystem Thread permits).Run p trace (p.move i _ .gone) :=
    Pool.own_run (fun _ => VisitStep) whole
  obtain ⟨trace, run⟩ := leaves
  exact ⟨trace, _, run⟩

/-- A visitor who can go on brings everybody nearer to the end. -/
theorem room_able {permits : ℕ} (some : 0 < permits) (p : Pool Thread Room Visitor)
    (reachable : (roomSystem Thread permits).Reachable p) :
    (∀ i, p.point i = .gone) ∨ ∃ trace next, (roomSystem Thread permits).Run p trace next ∧
      (roomSystem Thread permits).Reachable next ∧ next.total Visitor.left < p.total Visitor.left := by
  have kept := room_permits reachable
  obtain ⟨before, history⟩ := reachable
  by_cases inside : ∃ i point, p.point i = .admitted point
  · obtain ⟨i, point, there⟩ := inside
    obtain ⟨trace, after, run⟩ := visitor_leaves permits there
    have moved := p.total_move Visitor.left i after .gone
    rw [there] at moved
    simp only [Visitor.left] at moved
    exact .inr ⟨trace, _, run, ⟨_, history.append run⟩, by omega⟩
  · have out : p.total Visitor.admittedCount = 0 := by
      refine Pool.total_eq_zero.mpr fun i => ?_
      cases there : p.point i with
      | admitted point => exact absurd ⟨i, point, there⟩ inside
      | waiting | gone => rfl
    by_cases gone : ∀ i, p.point i = .gone
    · exact .inl gone
    · obtain ⟨i, still⟩ := not_forall.mp gone
      have there : p.point i = .waiting := by
        cases here : p.point i with
        | admitted point => exact absurd ⟨i, point, here⟩ inside
        | waiting => rfl
        | gone => exact absurd here still
      obtain ⟨left, free⟩ := Nat.exists_eq_succ_of_ne_zero (by omega : p.shared.permits ≠ 0)
      have waits : (roomSystem Thread permits).Step p (i, .wait)
          (p.move i ⟨left, p.shared.crowd⟩ (.admitted .before)) :=
        ⟨_, _, there ▸ .wait free, rfl⟩
      have moved := p.total_move Visitor.left i ⟨left, p.shared.crowd⟩ (.admitted .before)
      rw [there] at moved
      simp only [Visitor.left] at moved
      exact .inr ⟨_, _, .single waits, ⟨_, history.extend waits⟩, by omega⟩

/-- With one permit or more, in every run no more visitors are inside than there are
    permits. Once all are gone every permit is back, and what is printed is the largest
    number that was inside at any moment of the run, at least 1 if there is a visitor. No run
    gets stuck before. -/
theorem room_admits {permits : ℕ} (some : 0 < permits) {trace : List (Thread × VisitLabel)}
    {p : Pool Thread Room Visitor} (history : (roomSystem Thread permits).Trace trace p) :
    p.total Visitor.admittedCount ≤ permits ∧
      (0 ≤ p.shared.crowd.now ∧ p.shared.crowd.now ≤ permits) ∧
      ((∀ i, p.point i = .gone) → p.shared.permits = permits ∧ p.shared.crowd.now = 0 ∧
        p.shared.crowd.most ≤ permits ∧
        (∀ first second q, trace = first ++ second → (roomSystem Thread permits).Trace first q →
          q.shared.crowd.now ≤ p.shared.crowd.most) ∧
        (Nonempty Thread → 1 ≤ p.shared.crowd.most ∧
          ∃ i, (i, .crowd (.enter p.shared.crowd.most)) ∈ trace)) ∧
      ∃ more last, (roomSystem Thread permits).Run p more last ∧ ∀ i, last.point i = .gone := by
  have reachable : (roomSystem Thread permits).Reachable p := ⟨trace, history⟩
  have kept := room_permits reachable
  refine ⟨by omega, room_within reachable, fun gone => ?_, ?_⟩
  · have none : p.total Visitor.admittedCount = 0 :=
      Pool.total_eq_zero.mpr fun i => by rw [gone i]; rfl
    have after : ∀ i, (roomCrowd Thread).point (p.point i) = .after := fun i => by rw [gone i]; rfl
    have peak := (room_begins permits).peak (Int.natCast_nonneg permits)
      (fun q reached => (room_within reached).2) history fun i => .inr (after i)
    refine ⟨by omega, peak.empty, peak.within, peak.largest, ?_⟩
    rintro ⟨i⟩
    obtain ⟨positive, j, label, member, entered⟩ := peak.reached i (by simp [after i])
    refine ⟨positive, j, ?_⟩
    cases label with
    | wait | post => cases entered
    | crowd label => exact Option.some.inj entered ▸ member
  · obtain ⟨more, last, run, _, gone⟩ := LabelledSystem.Run.reaches (room_able some) reachable
    exact ⟨more, last, run, gone⟩

/-- Six visitors and two permits, as the demonstration has it. -/
theorem room_admits_example :
    ∃ trace last, (roomSystem (Fin 6) 2).Trace trace last ∧ (∀ i, last.point i = .gone) ∧
      last.shared.permits = 2 ∧ 1 ≤ last.shared.crowd.most ∧ last.shared.crowd.most ≤ 2 := by
  have start : (roomSystem (Fin 6) 2).Trace [] _ := ⟨_, rfl, .refl _⟩
  obtain ⟨trace, last, run, gone⟩ := (room_admits Nat.two_pos start).2.2.2
  have history : (roomSystem (Fin 6) 2).Trace trace last := ⟨_, rfl, run⟩
  obtain ⟨back, _, most, _, some⟩ := (room_admits Nat.two_pos history).2.2.1 gone
  exact ⟨trace, last, history, gone, back, (some ⟨0⟩).1, most⟩

end

end KernelMonitor
