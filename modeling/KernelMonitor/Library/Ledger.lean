import Mathlib

/-! # What a program is given and has to give back

Blocks, windows, files and locks are things a program is given and has to give back once.
A ledger says which of them are out, and which variable names which. An access that C
leaves undefined, or that loses the last name of a thing, has no result. For a sound
ledger it is enough to know of each variable whether it names nothing, a thing that is
out, or one that has been given back.
-/

namespace KernelMonitor.Library

/-- What a variable names. -/
inductive Holding where
  | nothing
  | live
  /-- Never set, or given back. -/
  | stale
  deriving DecidableEq, Repr

structure Ledger (Slot : Type*) where
  held : Slot → Option ℕ
  live : Finset ℕ
  next : ℕ

inductive Act where
  /-- `s = malloc(..)`, which may fail -/
  | acquire
  /-- `s = realloc(s, ..)`, which leaves the old block where it fails -/
  | regrow
  /-- `free(s)`, where `s` may be null -/
  | release
  /-- `close(s)`, where it may not -/
  | close
  /-- `s = NULL` -/
  | clear
  /-- What `s` names is read or written, if it names anything. -/
  | touch
  /-- It is, and `s` names something. -/
  | use
  /-- `s != NULL` -/
  | test
  deriving DecidableEq, Repr

/-- Whether the variable may hold something else then. -/
def Act.changes : Act → Bool
  | touch | use | test => false
  | _ => true

inductive Access (Slot : Type*) where
  | act (a : Act) (s : Slot)
  | swap (s t : Slot)

variable {Slot : Type*}

namespace Ledger

def status (l : Ledger Slot) (s : Slot) : Holding :=
  match l.held s with
  | none => .nothing
  | some thing => if thing ∈ l.live then .live else .stale

/-- What `s` names is given back, and `s` still names it. -/
def drop (l : Ledger Slot) (s : Slot) : Ledger Slot :=
  { l with live := match l.held s with
    | none => l.live
    | some thing => l.live.erase thing }

variable [DecidableEq Slot]

/-- A new thing, named by `s`. -/
def give (l : Ledger Slot) (s : Slot) : Ledger Slot :=
  ⟨Function.update l.held s (some l.next), insert l.next l.live, l.next + 1⟩

def clear (l : Ledger Slot) (s : Slot) : Ledger Slot :=
  { l with held := Function.update l.held s none }

def swap (l : Ledger Slot) (s t : Slot) : Ledger Slot :=
  { l with held := l.held ∘ Equiv.swap s t }

end Ledger

/-- The answer to an act on a variable, and what it holds then; `granted` is what the
    system decides. -/
def Act.apply (granted : Bool) : Act → Holding → Option (Bool × Holding)
  | acquire, .live => none
  | acquire, _ => some (granted, if granted then .live else .nothing)
  | regrow, .stale => none
  | regrow, h => some (granted, if granted then .live else h)
  | release, .nothing => some (true, .nothing)
  | release, .live => some (true, .stale)
  | release, .stale => none
  | close, .live => some (true, .stale)
  | close, _ => none
  | clear, .live => none
  | clear, _ => some (true, .nothing)
  | touch, .stale => none
  | touch, h => some (true, h)
  | use, .live => some (true, .live)
  | use, _ => none
  | test, .stale => none
  | test, h => some (h = .live, h)

section

variable [DecidableEq Slot]

def Act.run (granted : Bool) (l : Ledger Slot) (s : Slot) (a : Act) : Option (Bool × Ledger Slot) :=
  match a, l.status s with
  | acquire, .live => none
  | acquire, _ => some (granted, if granted then l.give s else l.clear s)
  | regrow, .stale => none
  | regrow, _ => some (granted, if granted then (l.drop s).give s else l)
  | release, .stale => none
  | release, _ => some (true, l.drop s)
  | close, .live => some (true, l.drop s)
  | close, _ => none
  | clear, .live => none
  | clear, _ => some (true, l.clear s)
  | touch, .stale => none
  | touch, _ => some (true, l)
  | use, .live => some (true, l)
  | use, _ => none
  | test, .stale => none
  | test, h => some (h = .live, l)

def Access.run (granted : Bool) (l : Ledger Slot) : Access Slot → Option (Bool × Ledger Slot)
  | act a s => a.run granted l s
  | swap s t => some (true, l.swap s t)

/-- The same, where it is only known what the variables hold. -/
def Access.apply (granted : Bool) (σ : Slot → Holding) :
    Access Slot → Option (Bool × (Slot → Holding))
  | act a s => (a.apply granted (σ s)).map fun after => (after.1, Function.update σ s after.2)
  | swap s t => some (true, σ ∘ Equiv.swap s t)

end

namespace Ledger

/-- Every thing that is out has one name, and new things are new. -/
structure Sound (l : Ledger Slot) : Prop where
  named : ∀ thing ∈ l.live, ∃ s, l.held s = some thing
  apart : ∀ s t thing, thing ∈ l.live → l.held s = some thing → l.held t = some thing → s = t
  past : ∀ s thing, l.held s = some thing → thing < l.next

theorem status_live {l : Ledger Slot} {s : Slot} :
    l.status s = .live ↔ ∃ thing ∈ l.live, l.held s = some thing := by
  unfold status
  cases named : l.held s with
  | none => simp
  | some thing => by_cases out : thing ∈ l.live <;> simp [out]

variable {l : Ledger Slot} (sound : l.Sound)
include sound

theorem Sound.nothing_out (none : ∀ s, l.status s ≠ .live) : l.live = ∅ := by
  refine Finset.eq_empty_of_forall_notMem fun thing out => ?_
  obtain ⟨s, named⟩ := sound.named thing out
  exact none s (status_live.mpr ⟨thing, out, named⟩)

variable [DecidableEq Slot]

theorem Sound.status_give (s : Slot) :
    (l.give s).status = Function.update l.status s .live := by
  funext t
  by_cases same : t = s
  · subst same
    simp [status, give]
  · rw [Function.update_of_ne same]
    simp only [status, give, Function.update_of_ne same]
    cases named : l.held t with
    | none => rfl
    | some thing => simp [(sound.past t thing named).ne]

theorem Sound.give {s : Slot} (unnamed : l.status s ≠ .live) : (l.give s).Sound := by
  have before : ∀ t thing, (l.give s).held t = some thing →
      t = s ∧ thing = l.next ∨ t ≠ s ∧ l.held t = some thing := by
    intro t thing named
    by_cases same : t = s
    · subst same
      simp only [Ledger.give, Function.update_self, Option.some.injEq] at named
      exact .inl ⟨rfl, named.symm⟩
    · simp only [Ledger.give, Function.update_of_ne same] at named
      exact .inr ⟨same, named⟩
  refine ⟨fun thing out => ?_, fun t u thing out first second => ?_, fun t thing named => ?_⟩
  · rcases Finset.mem_insert.mp out with rfl | out
    · exact ⟨s, Function.update_self _ _ _⟩
    · obtain ⟨t, named⟩ := sound.named thing out
      refine ⟨t, ?_⟩
      have other : t ≠ s := fun same => unnamed (status_live.mpr ⟨thing, out, same ▸ named⟩)
      simpa only [Ledger.give, Function.update_of_ne other] using named
  · rcases before t thing first with ⟨here, rfl⟩ | ⟨_, first⟩ <;>
      rcases before u _ second with ⟨there, same⟩ | ⟨_, second⟩
    · exact here.trans there.symm
    · exact absurd (sound.past u _ second) (lt_irrefl _)
    · exact absurd (sound.past t _ first) (same ▸ lt_irrefl _)
    · rcases Finset.mem_insert.mp out with rfl | out
      · exact absurd (sound.past t _ first) (lt_irrefl _)
      · exact sound.apart t u thing out first second
  · rcases before t thing named with ⟨_, rfl⟩ | ⟨_, named⟩
    · exact Nat.lt_succ_self _
    · exact (sound.past t thing named).trans (Nat.lt_succ_self _)

omit [DecidableEq Slot] in
theorem Sound.drop (s : Slot) : (l.drop s).Sound := by
  have fewer : ∀ thing ∈ (l.drop s).live, thing ∈ l.live := by
    intro thing out
    cases named : l.held s with
    | none => simpa only [Ledger.drop, named] using out
    | some this =>
        simp only [Ledger.drop, named] at out
        exact Finset.mem_of_mem_erase out
  exact ⟨fun thing out => sound.named thing (fewer thing out),
    fun t u thing out => sound.apart t u thing (fewer thing out), sound.past⟩

theorem Sound.status_drop (s : Slot) : (l.drop s).status =
    if l.status s = .live then Function.update l.status s .stale else l.status := by
  funext t
  cases named : l.held s with
  | none =>
      have idle : l.status s ≠ .live := by simp [status, named]
      rw [if_neg idle]
      simp [status, Ledger.drop, named]
  | some this =>
      by_cases out : this ∈ l.live
      · have live : l.status s = .live := status_live.mpr ⟨this, out, named⟩
        rw [if_pos live]
        by_cases same : t = s
        · subst same
          simp [status, Ledger.drop, named]
        · rw [Function.update_of_ne same]
          simp only [status, Ledger.drop, named]
          cases other : l.held t with
          | none => rfl
          | some thing =>
              have different : thing ≠ this := by
                rintro rfl
                exact same (sound.apart t s thing out other named)
              simp [different]
      · have idle : l.status s ≠ .live := by simp [status, named, out]
        rw [if_neg idle]
        simp [status, Ledger.drop, named, Finset.erase_eq_of_notMem out]

theorem Sound.clear {s : Slot} (unnamed : l.status s ≠ .live) : (l.clear s).Sound := by
  have before : ∀ t thing, (l.clear s).held t = some thing → l.held t = some thing := by
    intro t thing named
    by_cases same : t = s
    · subst same
      simp [Ledger.clear] at named
    · simpa only [Ledger.clear, Function.update_of_ne same] using named
  refine ⟨fun thing out => ?_, fun t u thing out first second =>
    sound.apart t u thing out (before t thing first) (before u thing second),
    fun t thing named => sound.past t thing (before t thing named)⟩
  obtain ⟨t, named⟩ := sound.named thing out
  refine ⟨t, ?_⟩
  have other : t ≠ s := fun same => unnamed (status_live.mpr ⟨thing, out, same ▸ named⟩)
  simpa only [Ledger.clear, Function.update_of_ne other] using named

omit sound in
theorem status_clear (s : Slot) :
    (l.clear s).status = Function.update l.status s .nothing := by
  funext t
  by_cases same : t = s
  · subst same
    simp [status, Ledger.clear]
  · rw [Function.update_of_ne same]
    simp only [status, Ledger.clear, Function.update_of_ne same]
    cases l.held t <;> rfl

theorem Sound.swap (s t : Slot) : (l.swap s t).Sound := by
  refine ⟨fun thing out => ?_, fun u v thing out first second => ?_, fun u => sound.past _⟩
  · obtain ⟨u, named⟩ := sound.named thing out
    exact ⟨Equiv.swap s t u, by simpa [Ledger.swap] using named⟩
  · exact (Equiv.swap s t).injective (sound.apart _ _ thing out first second)

end Ledger

section

variable [DecidableEq Slot]

theorem Act.sound {l after : Ledger Slot} (sound : l.Sound) {a : Act} {s : Slot}
    {granted answer : Bool} (ran : a.run granted l s = some (answer, after)) : after.Sound := by
  have dropped : (l.drop s).status s ≠ .live := by
    rw [sound.status_drop]
    split <;> simp_all
  cases a with
  | acquire =>
      cases h : l.status s <;> cases granted <;> simp only [run, h] at ran <;> cases ran
      · exact sound.clear (by simp [h])
      · exact sound.give (by simp [h])
      · exact sound.clear (by simp [h])
      · exact sound.give (by simp [h])
  | regrow =>
      cases h : l.status s <;> cases granted <;> simp only [run, h] at ran <;> cases ran
      · exact sound
      · exact (sound.drop s).give dropped
      · exact sound
      · exact (sound.drop s).give dropped
  | release | close =>
      cases h : l.status s <;> simp only [run, h] at ran <;> cases ran <;> exact sound.drop s
  | clear =>
      cases h : l.status s <;> simp only [run, h] at ran <;> cases ran <;>
        exact sound.clear (by simp [h])
  | touch | use | test =>
      cases h : l.status s <;> simp only [run, h] at ran <;> cases ran <;> exact sound

theorem Access.sound {l after : Ledger Slot} (sound : l.Sound) {a : Access Slot}
    {granted answer : Bool} (ran : a.run granted l = some (answer, after)) : after.Sound := by
  cases a with
  | act a s => exact Act.sound sound ran
  | swap s t =>
      cases ran
      exact sound.swap s t

/-- What the variables hold is all that counts. -/
theorem Act.run_apply {l : Ledger Slot} (sound : l.Sound) (a : Act) (s : Slot) (granted : Bool) :
    (a.run granted l s).map (fun after => (after.1, after.2.status)) =
      (a.apply granted (l.status s)).map
        fun after => (after.1, Function.update l.status s after.2) := by
  have same : ∀ {h}, l.status s = h → Function.update l.status s h = l.status := by
    rintro _ rfl
    exact Function.update_eq_self s l.status
  cases a with
  | acquire =>
      cases h : l.status s <;> cases granted <;>
        simp [run, apply, h, l.status_clear, sound.status_give]
  | regrow =>
      cases h : l.status s <;> cases granted <;>
        simp [run, apply, h, same h, (sound.drop s).status_give, sound.status_drop]
  | release | close =>
      cases h : l.status s <;> simp [run, apply, h, same h, sound.status_drop]
  | clear => cases h : l.status s <;> simp [run, apply, h, l.status_clear]
  | touch | use | test => cases h : l.status s <;> simp [run, apply, h, same h]

theorem Access.run_apply {l : Ledger Slot} (sound : l.Sound) (a : Access Slot) (granted : Bool) :
    (a.run granted l).map (fun after => (after.1, after.2.status)) = a.apply granted l.status := by
  cases a with
  | act a s => exact Act.run_apply sound a s granted
  | swap s t => rfl

end

end KernelMonitor.Library
