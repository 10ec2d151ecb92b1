import KernelMonitor.Library.SharedScript

/-! # Checking a thread step by step

A table says of every variable what is known of it. Each access turns one table into
another, whatever the outside answers, and a script that leads from table to table is
safe. The rules follow the script from its start.
-/

namespace KernelMonitor.Library

variable {Slot α β : Type}

namespace Script

def act (a : Act) (s : Slot) : Script Slot Bool := .access (.act a s) .ret

def acquire (s : Slot) : Script Slot Bool := act .acquire s
def regrow (s : Slot) : Script Slot Bool := act .regrow s
def test (s : Slot) : Script Slot Bool := act .test s
def release (s : Slot) : Script Slot Unit := .access (.act .release s) fun _ => .ret ()
def close (s : Slot) : Script Slot Unit := .access (.act .close s) fun _ => .ret ()
def clear (s : Slot) : Script Slot Unit := .access (.act .clear s) fun _ => .ret ()
def touch (s : Slot) : Script Slot Unit := .access (.act .touch s) fun _ => .ret ()
def use (s : Slot) : Script Slot Unit := .access (.act .use s) fun _ => .ret ()
def swap (s t : Slot) : Script Slot Unit := .access (.swap s t) fun _ => .ret ()
def choice : Script Slot ℕ := .choose .ret
def locking : Script Slot Unit := .lock (.ret ())
def unlocking : Script Slot Unit := .unlock (.ret ())
def spawning : Script Slot Bool := .spawn .ret
def joining : Script Slot Unit := .join (.ret ())

/-- At most so many rounds, until one of them says to stop. -/
def rounds (body : Script Slot Bool) : ℕ → Script Slot Unit
  | 0 => pure ()
  | n + 1 => do
      if ← body then
        rounds body n

/-- A loop; the outside has decided how often it is run at most. -/
def loop (body : Script Slot Bool) : Script Slot Unit := do
  rounds body (← choice)

end Script

/-- What an act does to what is known, for each answer. -/
def Act.want : Act → Want → Option (Bool → Want)
  | acquire, .null | acquire, .gone => some fun granted => if granted then .live else .null
  | acquire, _ => none
  | regrow, .gone => none
  | regrow, w => some fun granted => if granted then .live else w
  | release, .gone => none
  | release, .null => some fun _ => .null
  | release, _ => some fun _ => .gone
  | close, .live => some fun _ => .gone
  | close, _ => none
  | clear, .null | clear, .gone => some fun _ => .null
  | clear, _ => none
  | touch, .gone => none
  | touch, w => some fun _ => w
  | use, .live => some fun _ => .live
  | use, _ => none
  | test, .gone => none
  | test, _ => some fun set => if set then .live else .null

theorem Act.want_apply {a : Act} {w : Want} {out : Bool → Want} (known : a.want w = some out)
    {h : Holding} (allows : w.Allows h) (granted : Bool) :
    ∃ answer after, a.apply granted h = some (answer, after) ∧ (out answer).Allows after := by
  cases a <;> cases w <;> simp only [want, reduceCtorEq, Option.some.injEq] at known <;>
    subst known <;> cases h <;> simp [Want.Allows] at allows <;> cases granted <;>
    simp [apply, Want.Allows]

/-- Whatever the first allows the second allows. -/
def Want.Below (v w : Want) : Prop := ∀ h, v.Allows h → w.Allows h

instance (w : Want) (h : Holding) : Decidable (w.Allows h) := by
  unfold Want.Allows
  split <;> infer_instance

instance (v w : Want) : Decidable (v.Below w) :=
  decidable_of_iff (∀ h ∈ [Holding.nothing, .live, .stale], v.Allows h → w.Allows h)
    ⟨fun all h => all h (by cases h <;> simp), fun below h _ => below h⟩

theorem Want.Below.refl (w : Want) : w.Below w := fun _ allows => allows

theorem Want.null_settled : Want.null.Below .settled := by decide

theorem Want.null_gone : Want.null.Below .gone := by decide

/-- How a thread stands, and what it knows. -/
structure Stand (Slot : Type) where
  mode : Mode
  wants : Slot → Want

/-- What is known of the lock's and the second thread's shares is what is kept there. -/
def Protocol.Settled (p : Protocol Slot) (wants : Slot → Want) : Prop :=
  ∀ s, 1 ≤ p.guarded s ∨ 1 ≤ p.own .helper s → wants s = p.kept s

theorem Protocol.Settled.mutex {p : Protocol Slot} {wants : Slot → Want}
    (settled : p.Settled wants) : wants p.mutex = .live := by
  rw [settled p.mutex (.inr (p.mutex_own .helper).ge), p.mutex_kept]

variable [DecidableEq Slot] {p : Protocol Slot} {side : Side}

/-- From one table the script leads to another. -/
def Script.Takes (p : Protocol Slot) (side : Side) (before : Stand Slot) (script : Script Slot α)
    (after : α → Stand Slot) : Prop :=
  ∀ σ, Fits (p.share side before.mode) before.wants σ →
    script.Safe p side before.mode σ fun a m τ =>
      m = (after a).mode ∧ Fits (p.share side m) (after a).wants τ

namespace Script.Takes

variable {m : Mode} {wants : Slot → Want} {before : Stand Slot} {after : α → Stand Slot}
  {afterwards : β → Stand Slot} {first : Script Slot α} {rest : α → Script Slot β}

theorem ret {a : α} (ends : after a = before) : Takes p side before (pure a) after := by
  subst ends
  exact fun _ fits => ⟨rfl, fits⟩

theorem bind (head : Takes p side before first after)
    (tail : ∀ a, Takes p side (after a) (rest a) afterwards) :
    Takes p side before (first >>= rest) afterwards := by
  intro σ fits
  refine Safe.bind ((head σ fits).mono ?_)
  rintro a _ τ ⟨rfl, known⟩
  exact tail a τ known

theorem weaken {wider : α → Stand Slot} (head : Takes p side before first after)
    (mode : ∀ a, (wider a).mode = (after a).mode)
    (below : ∀ a s, ((after a).wants s).Below ((wider a).wants s)) :
    Takes p side before first wider := by
  intro σ fits
  refine (head σ fits).mono ?_
  rintro a _ τ ⟨rfl, known⟩
  exact ⟨(mode a).symm, fun s seen => below a s _ (known s seen)⟩

/-- Less may be known than was found out. -/
theorem forget {less : Slot → Want} (below : ∀ s, (wants s).Below (less s))
    (head : Takes p side ⟨m, less⟩ first after) : Takes p side ⟨m, wants⟩ first after :=
  fun σ fits => head σ fun s seen => below s _ (fits s seen)

theorem act {a : Act} {s : Slot} {out : Bool → Want} (known : a.want (wants s) = some out)
    (within : (Access.act a s).Within (p.share side m)) :
    Takes p side ⟨m, wants⟩ (Script.act a s)
      fun answer => ⟨m, Function.update wants s (out answer)⟩ := by
  intro σ fits
  refine ⟨within, fun granted => ?_⟩
  obtain ⟨answer, here, done, allows⟩ := Act.want_apply known (fits s within.seen) granted
  refine ⟨answer, Function.update σ s here, by simp only [Access.apply, done, Option.map_some],
    rfl, fun t seen => ?_⟩
  by_cases same : t = s
  · subst same
    simpa only [Function.update_self] using allows
  · simpa only [Function.update_of_ne same] using fits t seen

/-- An act whose answer is not looked at. -/
theorem act_unit {a : Act} {s : Slot} {w : Want} (known : a.want (wants s) = some fun _ => w)
    (within : (Access.act a s).Within (p.share side m)) :
    Takes p side ⟨m, wants⟩ (.access (.act a s) fun _ => .ret ())
      fun _ => ⟨m, Function.update wants s w⟩ := by
  have looked : Takes p side ⟨m, wants⟩ (Script.act a s)
      fun _ => ⟨m, Function.update wants s w⟩ := act known within
  have forgotten : Takes p side ⟨m, wants⟩ (Script.act a s >>= fun _ => pure ())
      fun _ => ⟨m, Function.update wants s w⟩ := looked.bind fun _ => ret rfl
  exact forgotten

/-- An act that leaves what is known. -/
theorem act_keep {a : Act} {s : Slot} (known : a.want (wants s) = some fun _ => wants s)
    (within : (Access.act a s).Within (p.share side m)) :
    Takes p side ⟨m, wants⟩ (.access (.act a s) fun _ => .ret ()) fun _ => ⟨m, wants⟩ := by
  have kept : Takes p side ⟨m, wants⟩ (.access (.act a s) fun _ => .ret ())
      fun _ => ⟨m, Function.update wants s (wants s)⟩ := act_unit known within
  rwa [Function.update_eq_self] at kept

theorem touch {s : Slot} (settled : wants s = .settled) (seen : 1 ≤ p.share side m s) :
    Takes p side ⟨m, wants⟩ (Script.touch s) fun _ => ⟨m, wants⟩ :=
  act_keep (by rw [settled]; rfl) seen

theorem use {s : Slot} (live : wants s = .live) (seen : 1 ≤ p.share side m s) :
    Takes p side ⟨m, wants⟩ (Script.use s) fun _ => ⟨m, wants⟩ :=
  act_keep (by rw [live]; rfl) seen

/-- A block that may grow. -/
theorem regrow {s : Slot} (settled : wants s = .settled) (mine : p.share side m s = 2) :
    Takes p side ⟨m, wants⟩ (Script.regrow s) fun _ => ⟨m, wants⟩ := by
  refine (act (a := .regrow) (by rw [settled]; rfl) mine).weaken (fun _ => rfl) fun granted t => ?_
  by_cases same : t = s
  · subst same
    simp only [Function.update_self, settled]
    cases granted <;> intro h allows <;> simp_all [Want.Allows]
  · simp only [Function.update_of_ne same]
    exact fun _ allows => allows

/-- A test whose answer is forgotten. -/
theorem test {s : Slot} (settled : wants s = .settled) (seen : 1 ≤ p.share side m s) :
    Takes p side ⟨m, wants⟩ (Script.test s) fun _ => ⟨m, wants⟩ := by
  refine (act (a := .test) (by rw [settled]; rfl) seen).weaken (fun _ => rfl) fun set t => ?_
  by_cases same : t = s
  · subst same
    simp only [Function.update_self, settled]
    cases set <;> intro h allows <;> simp_all [Want.Allows]
  · simp only [Function.update_of_ne same]
    exact fun _ allows => allows

/-- A thing that may not have been got. -/
theorem acquire {s : Slot} (gone : wants s = .gone ∨ wants s = .null)
    (mine : p.share side m s = 2) :
    Takes p side ⟨m, wants⟩ (Script.acquire s) fun _ => ⟨m, Function.update wants s .settled⟩ := by
  have known : Act.acquire.want (wants s) = some fun granted => if granted then .live else .null := by
    rcases gone with gone | gone <;> rw [gone] <;> rfl
  refine (act (a := .acquire) known mine).weaken (fun _ => rfl) fun granted t => ?_
  by_cases same : t = s
  · subst same
    simp only [Function.update_self]
    cases granted <;> intro h allows <;> simp_all [Want.Allows]
  · simp only [Function.update_of_ne same]
    exact fun _ allows => allows

theorem close {s : Slot} (live : wants s = .live) (mine : p.share side m s = 2) :
    Takes p side ⟨m, wants⟩ (Script.close s) fun _ => ⟨m, Function.update wants s .gone⟩ :=
  act_unit (by rw [live]; rfl) mine

theorem release {s : Slot} (settled : wants s = .settled) (mine : p.share side m s = 2) :
    Takes p side ⟨m, wants⟩ (Script.release s) fun _ => ⟨m, Function.update wants s .gone⟩ :=
  act_unit (by rw [settled]; rfl) mine

theorem clear {s : Slot} (gone : wants s = .gone ∨ wants s = .null)
    (mine : p.share side m s = 2) :
    Takes p side ⟨m, wants⟩ (Script.clear s) fun _ => ⟨m, Function.update wants s .null⟩ := by
  refine act_unit ?_ mine
  rcases gone with gone | gone <;> rw [gone] <;> rfl

/-- A thing that is only used where it was got. -/
theorem with_acquired {s : Slot} {yes no : Script Slot α}
    (gone : wants s = .gone ∨ wants s = .null) (mine : p.share side m s = 2)
    (got : Takes p side ⟨m, Function.update wants s .live⟩ yes after)
    (refused : Takes p side ⟨m, wants⟩ no after) :
    Takes p side ⟨m, wants⟩ (Script.acquire s >>= fun granted => if granted then yes else no)
      after := by
  have known : Act.acquire.want (wants s) = some fun granted => if granted then .live else .null := by
    rcases gone with gone | gone <;> rw [gone] <;> rfl
  refine (act (a := .acquire) known mine).bind fun granted => ?_
  cases granted with
  | true => simpa using got
  | false =>
      refine (forget (fun t => ?_) refused)
      by_cases same : t = s
      · subst same
        simp only [Function.update_self]
        rcases gone with gone | gone <;> rw [gone]
        · exact Want.null_gone
        · exact .refl _
      · simp only [Function.update_of_ne same]
        exact .refl _

/-- Giving it back brings the table from before. -/
theorem close_back {s : Slot} (gone : wants s = .gone) (mine : p.share side m s = 2) :
    Takes p side ⟨m, Function.update wants s .live⟩ (Script.close s) fun _ => ⟨m, wants⟩ := by
  have known : Function.update wants s .live s = .live := Function.update_self _ _ _
  have closed : Takes p side ⟨m, Function.update wants s .live⟩ (Script.close s)
      fun _ => ⟨m, Function.update (Function.update wants s .live) s .gone⟩ := close known mine
  rwa [Function.update_idem, ← gone, Function.update_eq_self] at closed

theorem swap {s t : Slot} (same : wants s = wants t) (left : p.share side m s = 2)
    (right : p.share side m t = 2) :
    Takes p side ⟨m, wants⟩ (Script.swap s t) fun _ => ⟨m, wants⟩ := by
  intro σ fits
  refine ⟨⟨left, right⟩, fun _ => ⟨true, _, rfl, rfl, fun r seen => ?_⟩⟩
  simp only [Function.comp_apply, Equiv.swap_apply_def]
  split_ifs with first second
  · subst first
    exact same ▸ fits t (Nat.le_of_succ_le right.ge)
  · subst second
    exact same ▸ fits s (Nat.le_of_succ_le left.ge)
  · exact fits r seen

theorem choice : Takes p side before Script.choice fun _ => before :=
  fun _ fits _ => ⟨rfl, fits⟩

theorem locking (settled : p.Settled wants) :
    Takes p side ⟨.free, wants⟩ Script.locking fun _ => ⟨.holding, wants⟩ := by
  intro σ fits
  have live := fits p.mutex (p.mutex_seen side .free)
  simp only [settled.mutex, Want.Allows] at live
  refine ⟨rfl, live, fun τ agree guarded => ⟨rfl, fun s seen => ?_⟩⟩
  by_cases mine : 1 ≤ p.own side s
  · rw [← agree s mine]
    exact fits s mine
  · have lock : 1 ≤ p.guarded s := by
      simp only [Protocol.share] at seen
      omega
    have known := guarded s lock
    rwa [← settled s (.inl lock)] at known

theorem unlocking (settled : p.Settled wants) :
    Takes p side ⟨.holding, wants⟩ Script.unlocking fun _ => ⟨.free, wants⟩ := by
  intro σ fits
  have live := fits p.mutex (p.mutex_seen side .holding)
  simp only [settled.mutex, Want.Allows] at live
  refine ⟨rfl, live, fun s guarded => ?_, rfl, fun s mine => fits s ?_⟩
  · rw [← settled s (.inl guarded)]
    exact fits s (by simp only [Protocol.share]; omega)
  · simp only [Protocol.share] at mine ⊢
    omega

theorem spawning (settled : p.Settled wants) :
    Takes p .main ⟨.alone, wants⟩ Script.spawning
      fun started => ⟨if started then .free else .alone, wants⟩ := by
  intro σ fits
  have all : ∀ s, (wants s).Allows (σ s) := fun s => fits s (by simp [Protocol.share])
  exact ⟨rfl, rfl, fun s seen => settled s (.inl seen) ▸ all s,
    fun s seen => settled s (.inr seen) ▸ all s, ⟨rfl, fits⟩, rfl, fun s _ => all s⟩

theorem joining (settled : p.Settled wants) :
    Takes p .main ⟨.free, wants⟩ Script.joining fun _ => ⟨.alone, wants⟩ := by
  intro σ fits
  refine ⟨rfl, rfl, fun τ agree guarded ended => ⟨rfl, fun s _ => ?_⟩⟩
  by_cases mine : 1 ≤ p.own .main s
  · rw [← agree s mine]
    exact fits s mine
  · have whole := p.whole s
    by_cases lock : 1 ≤ p.guarded s
    · have known := guarded s lock
      rwa [← settled s (.inl lock)] at known
    · have theirs : 1 ≤ p.own .helper s := by omega
      have known := ended s theirs
      rwa [← settled s (.inr theirs)] at known

theorem ite {c : Prop} [Decidable c] {yes no : Script Slot α}
    (left : c → Takes p side before yes after) (right : ¬ c → Takes p side before no after) :
    Takes p side before (if c then yes else no) after := by
  split
  · exact left ‹_›
  · exact right ‹_›

/-- A loop whose rounds keep the table keeps it. -/
theorem loop {body : Script Slot Bool} (round : Takes p side before body fun _ => before) :
    Takes p side before (Script.loop body) fun _ => before := by
  refine choice.bind fun n => ?_
  induction n with
  | zero => exact ret rfl
  | succ n ih =>
      refine round.bind fun more => ite (fun _ => ih) fun _ => ret rfl

/-- A second thread that leads from what is kept back to it. -/
theorem child {script : Script Slot Unit} (settled : p.Settled wants)
    (takes : Takes p .helper ⟨.free, wants⟩ script fun _ => ⟨.free, wants⟩) :
    ∀ σ, Fits (p.own .helper) p.kept σ → script.Safe p .helper .free σ p.Ends := by
  intro σ fits
  refine (takes σ fun s mine => ?_).mono ?_
  · have known := fits s mine
    rwa [← settled s (.inr mine)] at known
  · rintro _ _ τ ⟨rfl, known⟩
    refine ⟨rfl, fun s mine => ?_⟩
    rw [← settled s (.inr mine)]
    exact known s mine

/-- A first thread that leads from nothing to nothing. -/
theorem whole {script : Script Slot α}
    (takes : Takes p .main ⟨.alone, fun _ => .gone⟩ script fun _ => ⟨.alone, fun _ => .gone⟩) :
    ∀ σ, (∀ s, σ s = .stale) →
      script.Safe p .main .alone σ fun _ m τ => m = .alone ∧ ∀ s, τ s ≠ .live := by
  intro σ stale
  refine (takes σ fun s _ => by simp [Want.Allows, stale s]).mono ?_
  rintro _ _ τ ⟨rfl, known⟩
  exact ⟨rfl, fun s => known s (by simp [Protocol.share])⟩

end Script.Takes

end KernelMonitor.Library
