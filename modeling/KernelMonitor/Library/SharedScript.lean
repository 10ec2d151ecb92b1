import KernelMonitor.Library.LabelledRun
import KernelMonitor.Library.Ledger

/-! # Two threads and the things they share

A thread is a script of accesses to a ledger, with choices that the outside makes. One
thread may start a second, and both may take one lock. Every variable has two shares, held
by a thread or by the lock: with one a thread may look, with both it may change. A thread
is checked by itself, and threads that pass the check are safe however they interleave.
-/

namespace KernelMonitor.Library

inductive Side where
  | main
  | helper
  deriving DecidableEq, Repr

def Side.other : Side → Side
  | main => helper
  | helper => main

@[simp] theorem Side.other_other (side : Side) : side.other.other = side := by
  cases side <;> rfl

theorem Side.ne_other (side : Side) : side ≠ side.other := by
  cases side <;> simp [Side.other]

inductive Script (Slot α : Type) where
  | ret (a : α)
  | access (a : Access Slot) (next : Bool → Script Slot α)
  | choose (next : ℕ → Script Slot α)
  | lock (next : Script Slot α)
  | unlock (next : Script Slot α)
  | spawn (next : Bool → Script Slot α)
  | join (next : Script Slot α)

namespace Script

variable {Slot α β : Type}

def bind : Script Slot α → (α → Script Slot β) → Script Slot β
  | ret a, rest => rest a
  | access a next, rest => access a fun answer => (next answer).bind rest
  | choose next, rest => choose fun n => (next n).bind rest
  | lock next, rest => lock (next.bind rest)
  | unlock next, rest => unlock (next.bind rest)
  | spawn next, rest => spawn fun started => (next started).bind rest
  | join next, rest => join (next.bind rest)

instance : Monad (Script Slot) where
  pure := ret
  bind := bind

/-- A step of a thread that concerns no other thread. -/
inductive Step [DecidableEq Slot] (mutex : Slot) (side : Side) :
    Ledger Slot → Option Side → Script Slot α →
      Ledger Slot → Option Side → Script Slot α → Prop where
  | access {l after : Ledger Slot} {holder : Option Side} {a : Access Slot} {granted answer : Bool}
      {next : Bool → Script Slot α} (ran : a.run granted l = some (answer, after)) :
      Step mutex side l holder (.access a next) after holder (next answer)
  | choose {l : Ledger Slot} {holder : Option Side} {next : ℕ → Script Slot α} (n : ℕ) :
      Step mutex side l holder (.choose next) l holder (next n)
  | lock {l : Ledger Slot} {next : Script Slot α} :
      Step mutex side l none (.lock next) l (some side) next
  | unlock {l : Ledger Slot} {next : Script Slot α} :
      Step mutex side l (some side) (.unlock next) l none next

/-- What the thread does next has no defined result, or would wait for itself. -/
def Undefined [DecidableEq Slot] (mutex : Slot) (side : Side) (l : Ledger Slot)
    (holder : Option Side) (beside : Prop) : Script Slot α → Prop
  | ret _ | choose _ => False
  | access a _ => (∀ granted, a.run granted l = none) ∨
      a = .act .close mutex ∧ (beside ∨ holder ≠ none)
  | lock _ => l.status mutex ≠ .live ∨ holder = some side
  | unlock _ => l.status mutex ≠ .live ∨ holder ≠ some side
  | spawn _ => side = .helper ∨ beside
  | join _ => side = .helper ∨ ¬ beside

end Script

/-- The ledger, who has the lock, and what is left of the threads. -/
structure Running (Slot α : Type) where
  ledger : Ledger Slot
  holder : Option Side
  main : Script Slot α
  helper : Option (Script Slot Unit)

inductive SharedStep {Slot α : Type} [DecidableEq Slot] (mutex : Slot) (child : Script Slot Unit) :
    Running Slot α → Side → Running Slot α → Prop where
  | main {s : Running Slot α} {after : Ledger Slot} {holder : Option Side} {next : Script Slot α}
      (step : Script.Step mutex .main s.ledger s.holder s.main after holder next) :
      SharedStep mutex child s .main ⟨after, holder, next, s.helper⟩
  | helper {s : Running Slot α} {after : Ledger Slot} {holder : Option Side}
      {script next : Script Slot Unit} (there : s.helper = some script)
      (step : Script.Step mutex .helper s.ledger s.holder script after holder next) :
      SharedStep mutex child s .helper ⟨after, holder, s.main, some next⟩
  | spawn {s : Running Slot α} {next : Bool → Script Slot α} (there : s.main = .spawn next)
      (alone : s.helper = none) :
      SharedStep mutex child s .main ⟨s.ledger, s.holder, next true, some child⟩
  | refuse {s : Running Slot α} {next : Bool → Script Slot α} (there : s.main = .spawn next) :
      SharedStep mutex child s .main ⟨s.ledger, s.holder, next false, s.helper⟩
  | join {s : Running Slot α} {next : Script Slot α} (there : s.main = .join next)
      (ended : s.helper = some (.ret ())) :
      SharedStep mutex child s .main ⟨s.ledger, s.holder, next, none⟩

/-- No variable is set yet. -/
def Ledger.unset (Slot : Type) : Ledger Slot := ⟨fun _ => some 0, ∅, 1⟩

/-- The program `main`, whose second thread runs `child`. -/
def sharedSystem {Slot α : Type} [DecidableEq Slot] (mutex : Slot) (child : Script Slot Unit)
    (main : Script Slot α) : LabelledSystem (Running Slot α) Side where
  Init s := s = ⟨.unset Slot, none, main, none⟩
  Step := SharedStep mutex child

/-! ## What is known of a variable -/

inductive Want where
  | null
  | live
  /-- Live or null. -/
  | settled
  /-- Not live. -/
  | gone
  deriving DecidableEq, Repr

def Want.Allows : Want → Holding → Prop
  | null, h => h = .nothing
  | live, h => h = .live
  | settled, h => h ≠ .stale
  | gone, h => h ≠ .live

/-- What is known of the variables in sight. -/
def Fits {Slot : Type} (share : Slot → ℕ) (wants : Slot → Want) (σ : Slot → Holding) : Prop :=
  ∀ s, 1 ≤ share s → (wants s).Allows (σ s)

/-- Who has which shares while there are two threads, and what is known of the shares of
    the lock while it is free, and of those of the second thread at its ends. -/
structure Protocol (Slot : Type) where
  mutex : Slot
  own : Side → Slot → ℕ
  guarded : Slot → ℕ
  kept : Slot → Want
  whole : ∀ s, own .main s + own .helper s + guarded s = 2
  mutex_own : ∀ side, own side mutex = 1
  mutex_kept : kept mutex = .live

/-- A thread is alone, or beside the other one without or with the lock. -/
inductive Mode where
  | alone
  | free
  | holding
  deriving DecidableEq, Repr

namespace Protocol

variable {Slot : Type} (p : Protocol Slot)

def share (side : Side) : Mode → Slot → ℕ
  | .alone, _ => 2
  | .free, s => p.own side s
  | .holding, s => p.own side s + p.guarded s

theorem whole_other (side : Side) (s : Slot) :
    p.own side s + p.own side.other s + p.guarded s = 2 := by
  have whole := p.whole s
  cases side <;> simp only [Side.other] <;> omega

theorem mutex_seen (side : Side) (mode : Mode) : 1 ≤ p.share side mode p.mutex := by
  have mine := p.mutex_own side
  cases mode <;> simp only [share] <;> omega

end Protocol

/-- Two states look the same with these shares. -/
def Agree {Slot : Type} (share : Slot → ℕ) (σ τ : Slot → Holding) : Prop :=
  ∀ s, 1 ≤ share s → σ s = τ s

theorem Agree.refl {Slot : Type} {share : Slot → ℕ} (σ : Slot → Holding) : Agree share σ σ :=
  fun _ _ => rfl

theorem Fits.congr {Slot : Type} {share : Slot → ℕ} {wants : Slot → Want} {σ τ : Slot → Holding}
    (fits : Fits share wants σ) (agree : Agree share σ τ) : Fits share wants τ := by
  intro s seen
  rw [← agree s seen]
  exact fits s seen

section

variable {Slot : Type} [DecidableEq Slot]

/-- The shares an access needs. -/
def Access.Within (share : Slot → ℕ) : Access Slot → Prop
  | act a s => if a.changes then share s = 2 else 1 ≤ share s
  | swap s t => share s = 2 ∧ share t = 2

theorem Agree.update {share : Slot → ℕ} {σ τ : Slot → Holding} (agree : Agree share σ τ) (s : Slot)
    (h : Holding) : Agree share (Function.update σ s h) (Function.update τ s h) := by
  intro t seen
  by_cases same : t = s
  · subst same
    simp
  · simpa only [Function.update_of_ne same] using agree t seen

omit [DecidableEq Slot] in
theorem Access.Within.seen {share : Slot → ℕ} {a : Act} {s : Slot}
    (within : (Access.act a s).Within share) : 1 ≤ share s := by
  simp only [Access.Within] at within
  split at within <;> omega

theorem Act.apply_same {a : Act} (still : a.changes = false) {granted answer : Bool}
    {h after : Holding} (done : a.apply granted h = some (answer, after)) : after = h := by
  cases a <;> simp only [changes, reduceCtorEq] at still <;> cases h <;>
    simp only [apply, reduceCtorEq] at done <;> cases done <;> rfl

/-- An access only looks at what it has a share of, -/
theorem Access.apply_congr {share : Slot → ℕ} {σ τ after : Slot → Holding} {a : Access Slot}
    {granted answer : Bool} (within : a.Within share) (agree : Agree share σ τ)
    (done : a.apply granted σ = some (answer, after)) :
    ∃ there, a.apply granted τ = some (answer, there) ∧ Agree share after there := by
  cases a with
  | act a s =>
      obtain ⟨result, same, done⟩ := Option.map_eq_some_iff.mp done
      cases done
      refine ⟨Function.update τ s result.2, ?_, agree.update s result.2⟩
      simp only [apply, ← agree s within.seen, same, Option.map_some]
  | swap s t =>
      cases done
      have both : share s = 2 ∧ share t = 2 := within
      refine ⟨_, rfl, fun r seen => agree _ ?_⟩
      rw [Equiv.swap_apply_def]
      split_ifs <;> omega

/-- and only changes what it has both shares of. -/
theorem Access.apply_other {share : Slot → ℕ} {σ after : Slot → Holding} {a : Access Slot}
    {granted answer : Bool} (within : a.Within share)
    (done : a.apply granted σ = some (answer, after)) {s : Slot} (few : share s < 2) :
    after s = σ s := by
  cases a with
  | act a t =>
      obtain ⟨result, same, done⟩ := Option.map_eq_some_iff.mp done
      cases done
      by_cases here : s = t
      · subst here
        rw [Function.update_self]
        refine Act.apply_same ?_ same
        simp only [Within] at within
        split at within
        · omega
        · simp_all
      · rw [Function.update_of_ne here]
  | swap t u =>
      cases done
      have both : share t = 2 ∧ share u = 2 := within
      have apart : s ≠ t ∧ s ≠ u := by
        constructor <;> rintro rfl <;> omega
      simp [Equiv.swap_apply_of_ne_of_ne apart.1 apart.2]

/-! ## A thread by itself -/

/-- The thread may be run, and `post` holds where it ends. Whenever it takes the lock or
    joins the other thread, it learns what is kept there and nothing more. -/
def Script.Safe {α : Type} (p : Protocol Slot) (side : Side) : Script Slot α → Mode →
    (Slot → Holding) → (α → Mode → (Slot → Holding) → Prop) → Prop
  | .ret a, m, σ, post => post a m σ
  | .access a next, m, σ, post => a.Within (p.share side m) ∧ ∀ granted, ∃ answer after,
      a.apply granted σ = some (answer, after) ∧ (next answer).Safe p side m after post
  | .choose next, m, σ, post => ∀ n, (next n).Safe p side m σ post
  | .lock next, m, σ, post => m = .free ∧ σ p.mutex = .live ∧
      ∀ after, Agree (p.own side) σ after → Fits p.guarded p.kept after →
        next.Safe p side .holding after post
  | .unlock next, m, σ, post => m = .holding ∧ σ p.mutex = .live ∧ Fits p.guarded p.kept σ ∧
      next.Safe p side .free σ post
  | .spawn next, m, σ, post => side = .main ∧ m = .alone ∧ Fits p.guarded p.kept σ ∧
      Fits (p.own .helper) p.kept σ ∧ (next false).Safe p side .alone σ post ∧
      (next true).Safe p side .free σ post
  | .join next, m, σ, post => side = .main ∧ m = .free ∧
      ∀ after, Agree (p.own .main) σ after → Fits p.guarded p.kept after →
        Fits (p.own .helper) p.kept after → next.Safe p side .alone after post

variable {α β : Type} {p : Protocol Slot} {side : Side}

theorem Script.Safe.mono {script : Script Slot α} {m : Mode} {σ : Slot → Holding}
    {post wider : α → Mode → (Slot → Holding) → Prop} (safe : script.Safe p side m σ post)
    (more : ∀ a m σ, post a m σ → wider a m σ) : script.Safe p side m σ wider := by
  induction script generalizing m σ with
  | ret a => exact more a m σ safe
  | access a next ih =>
      refine ⟨safe.1, fun granted => ?_⟩
      obtain ⟨answer, after, done, rest⟩ := safe.2 granted
      exact ⟨answer, after, done, ih answer rest⟩
  | choose next ih => exact fun n => ih n (safe n)
  | lock next ih =>
      exact ⟨safe.1, safe.2.1, fun after agree fits => ih (safe.2.2 after agree fits)⟩
  | unlock next ih => exact ⟨safe.1, safe.2.1, safe.2.2.1, ih safe.2.2.2⟩
  | spawn next ih =>
      obtain ⟨main, alone, guarded, start, refused, started⟩ := safe
      exact ⟨main, alone, guarded, start, ih false refused, ih true started⟩
  | join next ih =>
      exact ⟨safe.1, safe.2.1, fun after agree fits ended => ih (safe.2.2 after agree fits ended)⟩

/-- One script after another. -/
theorem Script.Safe.bind {first : Script Slot α} {rest : α → Script Slot β} {m : Mode}
    {σ : Slot → Holding} {post : β → Mode → (Slot → Holding) → Prop}
    (safe : first.Safe p side m σ fun a m σ => (rest a).Safe p side m σ post) :
    (first.bind rest).Safe p side m σ post := by
  induction first generalizing m σ with
  | ret a => exact safe
  | access a next ih =>
      refine ⟨safe.1, fun granted => ?_⟩
      obtain ⟨answer, after, done, more⟩ := safe.2 granted
      exact ⟨answer, after, done, ih answer more⟩
  | choose next ih => exact fun n => ih n (safe n)
  | lock next ih =>
      exact ⟨safe.1, safe.2.1, fun after agree fits => ih (safe.2.2 after agree fits)⟩
  | unlock next ih => exact ⟨safe.1, safe.2.1, safe.2.2.1, ih safe.2.2.2⟩
  | spawn next ih =>
      obtain ⟨main, alone, guarded, start, refused, started⟩ := safe
      exact ⟨main, alone, guarded, start, ih false refused, ih true started⟩
  | join next ih =>
      exact ⟨safe.1, safe.2.1, fun after agree fits ended => ih (safe.2.2 after agree fits ended)⟩

/-- What the thread has no share of does not count. -/
theorem Script.Safe.congr {script : Script Slot α} {m : Mode} {σ τ : Slot → Holding}
    {post : α → Mode → (Slot → Holding) → Prop} (safe : script.Safe p side m σ post)
    (agree : Agree (p.share side m) σ τ)
    (blind : ∀ a m σ τ, Agree (p.share side m) σ τ → post a m σ → post a m τ) :
    script.Safe p side m τ post := by
  induction script generalizing m σ τ with
  | ret a => exact blind a m σ τ agree safe
  | access a next ih =>
      refine ⟨safe.1, fun granted => ?_⟩
      obtain ⟨answer, after, done, rest⟩ := safe.2 granted
      obtain ⟨there, same, agree⟩ := Access.apply_congr safe.1 agree done
      exact ⟨answer, there, same, ih answer rest agree⟩
  | choose next ih => exact fun n => ih n (safe n) agree
  | lock next ih =>
      obtain ⟨rfl, live, rest⟩ := safe
      refine ⟨rfl, agree p.mutex (p.mutex_seen side _) ▸ live, fun after seen fits => ?_⟩
      exact rest after (fun s mine => (agree s mine).trans (seen s mine)) fits
  | unlock next ih =>
      obtain ⟨rfl, live, fits, rest⟩ := safe
      refine ⟨rfl, agree p.mutex (p.mutex_seen side _) ▸ live, fits.congr fun s guarded => ?_,
        ih rest fun s mine => ?_⟩
      · exact agree s (by simp only [Protocol.share]; omega)
      · refine agree s ?_
        simp only [Protocol.share] at mine ⊢
        omega
  | spawn next ih =>
      obtain ⟨main, rfl, guarded, start, refused, started⟩ := safe
      have all : σ = τ := funext fun s => agree s (by simp [Protocol.share])
      subst all
      exact ⟨main, rfl, guarded, start, refused, started⟩
  | join next ih =>
      obtain ⟨rfl, rfl, rest⟩ := safe
      refine ⟨rfl, rfl, fun after seen => ?_⟩
      exact rest after fun s mine => (agree s mine).trans (seen s mine)

/-! ## Two threads together -/

/-- The lock's shares are as they should be while nobody has it. -/
def Protocol.LockKept (p : Protocol Slot) (holder : Option Side) (σ : Slot → Holding) : Prop :=
  holder = none → Fits p.guarded p.kept σ

def modeOf (side : Side) (holder : Option Side) : Mode :=
  if holder = some side then .holding else .free

/-- A step of one thread beside the other: it stays safe, and the other one sees nothing
    of it. -/
theorem Script.Step.kept {l after : Ledger Slot} {holder later : Option Side}
    {script next : Script Slot α} {post : α → Mode → (Slot → Holding) → Prop} (sound : l.Sound)
    (safe : script.Safe p side (modeOf side holder) l.status post)
    (lock : p.LockKept holder l.status)
    (step : Step p.mutex side l holder script after later next) :
    after.Sound ∧ next.Safe p side (modeOf side later) after.status post ∧
      p.LockKept later after.status ∧ (later = some side.other ↔ holder = some side.other) ∧
      Agree (p.share side.other (modeOf side.other holder)) l.status after.status := by
  have different := side.ne_other
  cases step with
  | @access _ _ a granted answer next ran =>
      obtain ⟨reply, σ, done, rest⟩ := safe.2 granted
      have seen := Access.run_apply sound a granted
      rw [ran, done] at seen
      cases seen
      have other : ∀ s, p.share side (modeOf side holder) s < 2 → after.status s = l.status s :=
        fun s => Access.apply_other safe.1 done
      refine ⟨Access.sound sound ran, rest, fun free => ?_, Iff.rfl, fun s mine => ?_⟩
      · subst free
        refine (lock rfl).congr fun s guarded => (other s ?_).symm
        have whole := p.whole_other side s
        simp only [modeOf, reduceCtorEq, if_false, Protocol.share]
        omega
      · refine (other s ?_).symm
        have whole := p.whole_other side s
        unfold modeOf at mine ⊢
        by_cases held : holder = some side
        · subst held
          simp only [Option.some.injEq, different, if_false, if_true, Protocol.share] at mine ⊢
          omega
        · simp only [held, if_false, Protocol.share]
          split at mine <;> simp only [Protocol.share] at mine <;> omega
  | choose n => exact ⟨sound, safe n, lock, Iff.rfl, .refl _⟩
  | lock =>
      refine ⟨sound, ?_, by simp [Protocol.LockKept], by simp [different], .refl _⟩
      simp only [modeOf, if_true]
      exact safe.2.2 _ (.refl _) (lock rfl)
  | unlock =>
      simp only [modeOf, if_true] at safe
      obtain ⟨_, _, fits, rest⟩ := safe
      exact ⟨sound, rest, fun _ => fits, by simp [different], .refl _⟩

/-- A step of a thread that is alone. -/
theorem Script.Step.kept_alone {l after : Ledger Slot} {later : Option Side}
    {script next : Script Slot α} {post : α → Mode → (Slot → Holding) → Prop} (sound : l.Sound)
    (safe : script.Safe p side .alone l.status post)
    (step : Step p.mutex side l none script after later next) :
    after.Sound ∧ later = none ∧ next.Safe p side .alone after.status post := by
  cases step with
  | @access _ _ a granted answer next ran =>
      obtain ⟨reply, σ, done, rest⟩ := safe.2 granted
      have seen := Access.run_apply sound a granted
      rw [ran, done] at seen
      cases seen
      exact ⟨Access.sound sound ran, rfl, rest⟩
  | choose n => exact ⟨sound, rfl, safe n⟩
  | lock => cases safe.1

/-- A safe thread's next step is defined, and it can be taken unless it ends, waits for
    the lock, or starts or joins the other thread. -/
theorem Script.Safe.defined {script : Script Slot α} {l : Ledger Slot} {holder : Option Side}
    {m : Mode} {post : α → Mode → (Slot → Holding) → Prop} {beside : Prop} (sound : l.Sound)
    (safe : script.Safe p side m l.status post)
    (mode : ¬ beside ∧ m = .alone ∧ holder = none ∨ beside ∧ m = modeOf side holder) :
    ¬ script.Undefined p.mutex side l holder beside ∧
      ((∃ a, script = .ret a) ∨ (∃ next, script = .spawn next ∧ ¬ beside) ∨
        (∃ next, script = .join next ∧ beside) ∨
        (∃ next, script = .lock next ∧ holder = some side.other ∧ beside) ∨
        ∃ after later next, Step p.mutex side l holder script after later next) := by
  have free : m = .free → beside ∧ holder ≠ some side := by
    rintro rfl
    rcases mode with ⟨_, wrong, _⟩ | ⟨is, mode⟩
    · cases wrong
    · refine ⟨is, fun held => ?_⟩
      simp [modeOf, held] at mode
  have held : m = .holding → holder = some side := by
    rintro rfl
    rcases mode with ⟨_, wrong, _⟩ | ⟨_, mode⟩
    · cases wrong
    · by_contra other
      simp [modeOf, other] at mode
  cases script with
  | ret a => exact ⟨id, .inl ⟨a, rfl⟩⟩
  | access a next =>
      have runs : ∀ granted, ∃ answer after, a.run granted l = some (answer, after) := by
        intro granted
        obtain ⟨answer, σ, done, _⟩ := safe.2 granted
        have seen := Access.run_apply sound a granted
        rw [done] at seen
        obtain ⟨⟨answer, after⟩, ran, _⟩ := Option.map_eq_some_iff.mp seen
        exact ⟨answer, after, ran⟩
      obtain ⟨answer, after, ran⟩ := runs true
      refine ⟨?_, .inr (.inr (.inr (.inr ⟨_, _, _, .access ran⟩)))⟩
      rintro (stuck | ⟨rfl, used⟩)
      · rw [stuck true] at ran
        cases ran
      · -- both shares of the lock are needed, and each thread has one
        rcases mode with ⟨alone, _, unheld⟩ | ⟨_, rfl⟩
        · exact used.elim alone fun held => held unheld
        · have all := safe.1
          have mine := p.mutex_own side
          have theirs := p.mutex_own side.other
          have whole := p.whole_other side p.mutex
          simp only [Access.Within, Act.changes, if_true, modeOf] at all
          split at all <;> simp only [Protocol.share] at all <;> omega
  | choose next => exact ⟨id, .inr (.inr (.inr (.inr ⟨_, _, _, .choose 0⟩)))⟩
  | lock next =>
      obtain ⟨beside, other⟩ := free safe.1
      refine ⟨?_, ?_⟩
      · rintro (dead | mine)
        · exact dead safe.2.1
        · exact other mine
      · cases holder with
        | none => exact .inr (.inr (.inr (.inr ⟨_, _, _, .lock⟩)))
        | some who =>
            have theirs : who = side.other := by
              cases who <;> cases side <;> simp_all [Side.other]
            exact .inr (.inr (.inr (.inl ⟨next, rfl, theirs ▸ rfl, beside⟩)))
  | unlock next =>
      obtain rfl := held safe.1
      refine ⟨?_, .inr (.inr (.inr (.inr ⟨_, _, _, .unlock⟩)))⟩
      rintro (dead | other)
      · exact dead safe.2.1
      · exact other rfl
  | spawn next =>
      obtain ⟨rfl, rfl, _⟩ := safe
      have lone : ¬ beside := by
        rcases mode with ⟨alone, _⟩ | ⟨_, mode⟩
        · exact alone
        · unfold modeOf at mode
          split at mode <;> cases mode
      exact ⟨by simp [Undefined, lone], .inr (.inl ⟨next, rfl, lone⟩)⟩
  | join next =>
      obtain ⟨rfl, rfl, _⟩ := safe
      have both := (free rfl).1
      exact ⟨by simp [Undefined, both], .inr (.inr (.inl ⟨next, rfl, both⟩))⟩

/-- Where the second thread may end: it has given the lock back, and what it owns is as
    it should be. -/
def Protocol.Ends (p : Protocol Slot) (_ : Unit) (m : Mode) (σ : Slot → Holding) : Prop :=
  m = .free ∧ Fits (p.own .helper) p.kept σ

/-- What holds of two safe threads throughout. -/
structure SharedKept (p : Protocol Slot) (post : α → (Slot → Holding) → Prop)
    (s : Running Slot α) : Prop where
  sound : s.ledger.Sound
  alone : s.helper = none → s.holder = none ∧
    s.main.Safe p .main .alone s.ledger.status fun a m σ => m = .alone ∧ post a σ
  beside : ∀ script, s.helper = some script →
    s.main.Safe p .main (modeOf .main s.holder) s.ledger.status (fun a m σ => m = .alone ∧ post a σ) ∧
      script.Safe p .helper (modeOf .helper s.holder) s.ledger.status p.Ends ∧
      p.LockKept s.holder s.ledger.status

theorem SharedKept.step {post : α → (Slot → Holding) → Prop} {child : Script Slot Unit}
    (childSafe : ∀ σ, Fits (p.own .helper) p.kept σ → child.Safe p .helper .free σ p.Ends)
    {s next : Running Slot α} {label : Side} (kept : SharedKept p post s)
    (step : SharedStep p.mutex child s label next) : SharedKept p post next := by
  have mainBlind : ∀ (a : α) m (σ τ : Slot → Holding), Agree (p.share .main m) σ τ →
      m = .alone ∧ post a σ → m = .alone ∧ post a τ := by
    rintro a _ σ τ agree ⟨rfl, ends⟩
    have all : σ = τ := funext fun s => agree s (by simp [Protocol.share])
    exact ⟨rfl, all ▸ ends⟩
  have helperBlind : ∀ (a : Unit) m (σ τ : Slot → Holding), Agree (p.share .helper m) σ τ →
      p.Ends a m σ → p.Ends a m τ := by
    rintro a _ σ τ agree ⟨rfl, ends⟩
    exact ⟨rfl, ends.congr agree⟩
  cases step with
  | @main after holder script step =>
      cases helper : s.helper with
      | none =>
          obtain ⟨free, safe⟩ := kept.alone helper
          rw [free] at step
          obtain ⟨sound, later, rest⟩ := step.kept_alone kept.sound safe
          exact ⟨sound, fun _ => ⟨later, rest⟩, (by rintro _ ⟨⟩)⟩
      | some other =>
          obtain ⟨safe, otherSafe, lock⟩ := kept.beside other helper
          obtain ⟨sound, rest, lock, held, agree⟩ := step.kept kept.sound safe lock
          refine ⟨sound, by simp, ?_⟩
          rintro _ ⟨⟩
          refine ⟨rest, ?_, lock⟩
          have same : modeOf .helper holder = modeOf .helper s.holder := by
            simp only [modeOf]
            simp only [Side.other] at held
            simp [held]
          rw [same]
          exact otherSafe.congr agree helperBlind
  | @helper after holder script next there step =>
      obtain ⟨mainSafe, safe, lock⟩ := kept.beside script there
      obtain ⟨sound, rest, lock, held, agree⟩ := step.kept kept.sound safe lock
      refine ⟨sound, by simp, ?_⟩
      rintro _ ⟨⟩
      refine ⟨?_, rest, lock⟩
      have same : modeOf .main holder = modeOf .main s.holder := by
        simp only [modeOf]
        simp only [Side.other] at held
        simp [held]
      rw [same]
      exact mainSafe.congr agree mainBlind
  | @spawn next there alone =>
      obtain ⟨free, safe⟩ := kept.alone alone
      rw [there] at safe
      obtain ⟨_, _, guarded, start, _, started⟩ := safe
      refine ⟨kept.sound, by simp, ?_⟩
      rintro _ ⟨⟩
      refine ⟨?_, ?_, fun _ => guarded⟩
      · simpa [modeOf, free] using started
      · simpa [modeOf, free] using childSafe _ start
  | @refuse next there =>
      cases helper : s.helper with
      | none =>
          obtain ⟨free, safe⟩ := kept.alone helper
          rw [there] at safe
          obtain ⟨_, _, _, _, refused, _⟩ := safe
          exact ⟨kept.sound, fun _ => ⟨free, refused⟩, (by rintro _ ⟨⟩)⟩
      | some other =>
          have safe := (kept.beside other helper).1
          rw [there] at safe
          have wrong := safe.2.1
          unfold modeOf at wrong
          split at wrong <;> cases wrong
  | @join next there ended =>
      obtain ⟨safe, otherSafe, lock⟩ := kept.beside _ ended
      rw [there] at safe
      obtain ⟨_, mine, rest⟩ := safe
      obtain ⟨theirs, fits⟩ := otherSafe
      have free : s.holder = none := by
        cases held : s.holder with
        | none => rfl
        | some who => cases who <;> simp [modeOf, held] at mine theirs
      exact ⟨kept.sound, fun _ => ⟨free, rest _ (.refl _) (lock free) fits⟩, (by rintro _ ⟨⟩)⟩

omit [DecidableEq Slot] in
theorem Ledger.unset_sound : (Ledger.unset Slot).Sound where
  named := by simp [unset]
  apart := by simp [unset]
  past := by simp [unset]

omit [DecidableEq Slot] in
theorem Ledger.unset_status (s : Slot) : (Ledger.unset Slot).status s = .stale := by
  simp [unset, status]

/-- Two threads that are safe by themselves are safe together. In every run no access is
    undefined, everything that is out has a name, and until the program has ended some
    thread can go on. Where it ends, the second thread has been joined, nobody has the
    lock, and the first thread's post-condition holds. -/
theorem shared_safe {post : α → (Slot → Holding) → Prop} {child : Script Slot Unit}
    {main : Script Slot α}
    (childSafe : ∀ σ, Fits (p.own .helper) p.kept σ → child.Safe p .helper .free σ p.Ends)
    (mainSafe : ∀ σ, (∀ s, σ s = .stale) →
      main.Safe p .main .alone σ fun a m σ => m = .alone ∧ post a σ)
    {s : Running Slot α} (reachable : (sharedSystem p.mutex child main).Reachable s) :
    s.ledger.Sound ∧ (¬ s.main.Undefined p.mutex .main s.ledger s.holder (s.helper ≠ none)) ∧
      (∀ script, s.helper = some script →
        ¬ script.Undefined p.mutex .helper s.ledger s.holder True) ∧
      (∀ a, s.main = .ret a → s.helper = none ∧ s.holder = none ∧ post a s.ledger.status) ∧
      ((∃ a, s.main = .ret a) ∨
        ∃ label next, (sharedSystem p.mutex child main).Step s label next) := by
  have kept : SharedKept p post s := by
    refine reachable.invariant ?_ fun _ _ _ step kept => kept.step childSafe step
    rintro _ rfl
    exact ⟨Ledger.unset_sound, fun _ => ⟨rfl, mainSafe _ Ledger.unset_status⟩, (by rintro _ ⟨⟩)⟩
  cases helper : s.helper with
  | none =>
      obtain ⟨free, safe⟩ := kept.alone helper
      obtain ⟨defined, goes⟩ := safe.defined kept.sound (.inl ⟨(id : ¬ False), rfl, free⟩)
      refine ⟨kept.sound, by simpa using defined, by simp, fun a ended => ?_, ?_⟩
      · rw [ended] at safe
        exact ⟨rfl, free, safe.2⟩
      · rcases goes with ended | ⟨next, there, _⟩ | ⟨_, _, ⟨⟩⟩ | ⟨_, _, _, ⟨⟩⟩ | ⟨_, _, _, step⟩
        · exact .inl ended
        · exact .inr ⟨_, _, .refuse there⟩
        · exact .inr ⟨_, _, .main step⟩
  | some script =>
      obtain ⟨safe, otherSafe, lock⟩ := kept.beside script helper
      obtain ⟨defined, goes⟩ := safe.defined kept.sound (.inr ⟨trivial, rfl⟩)
      obtain ⟨otherDefined, otherGoes⟩ := otherSafe.defined kept.sound (.inr ⟨trivial, rfl⟩)
      refine ⟨kept.sound, by simpa using defined, ?_, fun a ended => ?_, ?_⟩
      · rintro _ ⟨⟩
        exact otherDefined
      · rw [ended] at safe
        have wrong : modeOf .main s.holder = .alone := safe.1
        unfold modeOf at wrong
        split at wrong <;> cases wrong
      · have joins : ∀ next, script ≠ .join next := by
          rintro next rfl
          exact otherDefined (.inl rfl)
        have helps : (∃ after later next,
            Script.Step p.mutex .helper s.ledger s.holder script after later next) →
              ∃ label next, (sharedSystem p.mutex child main).Step s label next := by
          rintro ⟨_, _, _, step⟩
          exact ⟨_, _, .helper helper step⟩
        rcases goes with ended | ⟨_, _, alone⟩ | ⟨next, there, _⟩ | ⟨next, there, held, _⟩ |
          ⟨_, _, _, step⟩
        · exact .inl ended
        · exact absurd trivial alone
        · right
          rw [there] at safe
          have free := safe.2.1
          rcases otherGoes with ⟨_, rfl⟩ | ⟨_, _, alone⟩ | ⟨_, same, _⟩ | ⟨_, _, held, _⟩ | step
          · exact ⟨_, _, .join there helper⟩
          · exact absurd trivial alone
          · exact absurd same (joins _)
          · simp [modeOf, held, Side.other] at free
          · exact helps step
        · right
          rcases otherGoes with ⟨_, rfl⟩ | ⟨_, _, alone⟩ | ⟨_, same, _⟩ | ⟨_, _, mine, _⟩ | step
          · have free := otherSafe.1
            simp [modeOf, held, Side.other] at free
          · exact absurd trivial alone
          · exact absurd same (joins _)
          · simp [held, Side.other] at mine
          · exact helps step
        · exact .inr ⟨_, _, .main step⟩

/-- What may be left of a script after its first step. -/
inductive Script.Rest : Script Slot α → Script Slot α → Prop where
  | access {a : Access Slot} {next : Bool → Script Slot α} (answer : Bool) :
      Rest (next answer) (.access a next)
  | choose {next : ℕ → Script Slot α} (n : ℕ) : Rest (next n) (.choose next)
  | lock {next : Script Slot α} : Rest next (.lock next)
  | unlock {next : Script Slot α} : Rest next (.unlock next)
  | spawn {next : Bool → Script Slot α} (started : Bool) : Rest (next started) (.spawn next)
  | join {next : Script Slot α} : Rest next (.join next)

omit [DecidableEq Slot] in
theorem Script.rest_wf : WellFounded (Rest : Script Slot α → Script Slot α → Prop) := by
  refine ⟨fun script => ?_⟩
  induction script with
  | ret a => exact ⟨_, by rintro _ ⟨⟩⟩
  | access a next ih => exact ⟨_, by rintro _ ⟨⟩; exact ih _⟩
  | choose next ih => exact ⟨_, by rintro _ ⟨⟩; exact ih _⟩
  | lock next ih | unlock next ih | join next ih => exact ⟨_, by rintro _ ⟨⟩; exact ih⟩
  | spawn next ih => exact ⟨_, by rintro _ ⟨⟩; exact ih _⟩

theorem Script.Step.rest {mutex : Slot} {l after : Ledger Slot} {holder later : Option Side}
    {script next : Script Slot α} (step : Step mutex side l holder script after later next) :
    Rest next script := by
  cases step with
  | access => exact .access _
  | choose n => exact .choose n
  | lock => exact .lock
  | unlock => exact .unlock

/-- Safe threads can always be carried on to the end of the first one. -/
theorem shared_ends {post : α → (Slot → Holding) → Prop} {child : Script Slot Unit}
    {main : Script Slot α}
    (childSafe : ∀ σ, Fits (p.own .helper) p.kept σ → child.Safe p .helper .free σ p.Ends)
    (mainSafe : ∀ σ, (∀ s, σ s = .stale) →
      main.Safe p .main .alone σ fun a m σ => m = .alone ∧ post a σ)
    {s : Running Slot α} (reachable : (sharedSystem p.mutex child main).Reachable s) :
    ∃ more last a, LabelledSystem.Run (sharedSystem p.mutex child main) s more last ∧
      last.main = .ret a := by
  -- a step takes something off the first thread, or leaves it and takes something off the second
  let left : Running Slot α → Script Slot α × Script Slot Unit :=
    fun s => (s.main, s.helper.getD (.ret ()))
  have lower : WellFounded (InvImage (Prod.Lex Script.Rest Script.Rest) left) :=
    InvImage.wf left (Prod.lex ⟨_, Script.rest_wf⟩ ⟨_, Script.rest_wf⟩).wf
  induction s using lower.induction with
  | _ s ih =>
      obtain ⟨_, _, _, _, ⟨a, ended⟩ | ⟨label, next, step⟩⟩ :=
        shared_safe childSafe mainSafe reachable
      · exact ⟨[], s, a, .refl s, ended⟩
      · have nearer : Prod.Lex Script.Rest Script.Rest (left next) (left s) := by
          cases step with
          | main step => exact .left _ _ step.rest
          | helper there step =>
              simp only [left, there]
              exact .right _ step.rest
          | spawn there =>
              simp only [left, there]
              exact .left _ _ (.spawn true)
          | refuse there =>
              simp only [left, there]
              exact .left _ _ (.spawn false)
          | join there =>
              simp only [left, there]
              exact .left _ _ .join
        obtain ⟨more, last, a, run, ended⟩ := ih next nearer (reachable.step step)
        exact ⟨label :: more, last, a, .cons step run, ended⟩

end

end KernelMonitor.Library
